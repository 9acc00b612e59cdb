import Fibers.Duration
import Fibers.Fault

/-!
The data that scripts pass around and answer with, and their compact text, in which the fields of a
record stand in the order of their names.
-/

namespace Fibers.Script

inductive Datum where
  | null
  | flag (b : Bool)
  | number (n : Int)
  | text (s : String)
  | list (items : List Datum)
  | record (fields : List (String × Datum))
  deriving Inhabited

namespace Datum

def nat (n : Nat) : Datum := number (Int.ofNat n)

/-- A number, or null if there is none. -/
def natOrNull : Option Nat → Datum
  | some n => nat n
  | none => null

def intOrNull : Option Int → Datum
  | some n => number n
  | none => null

def textOrNull : Option String → Datum
  | some s => text s
  | none => null

/-- A length of time as its seconds and nanoseconds. -/
def duration (d : Duration) : Datum := list [nat d.secs, nat d.subsecNanos]

def durationOrNull : Option Duration → Datum
  | some d => duration d
  | none => null

def ok : Datum := text "ok"

/-- An error with its kind and its text. -/
def error (kind message : String) : Datum :=
  record [("error", text kind), ("message", text message)]

/-- An error that may come from a numbered system call. -/
def osError (kind message : String) (number : Option Int) : Datum :=
  record [("error", text kind), ("message", text message), ("os", intOrNull number)]

/-- A number in four hexadecimal digits. -/
def fourHex (n : Nat) : List Char :=
  let ds := Nat.toDigits 16 n
  List.replicate (4 - ds.length) '0' ++ ds

/-- What stands for one character of a text. -/
def escapeChar (c : Char) : List Char :=
  if c = '"' then ['\\', '"']
  else if c = '\\' then ['\\', '\\']
  else if c = '\n' then ['\\', 'n']
  else if c = '\r' then ['\\', 'r']
  else if c = '\t' then ['\\', 't']
  else if c = '\x08' then ['\\', 'b']
  else if c = '\x0c' then ['\\', 'f']
  else if c.toNat < 0x20 then '\\' :: 'u' :: fourHex c.toNat
  else [c]

def quote (s : String) : String :=
  String.ofList ('"' :: s.toList.flatMap escapeChar ++ ['"'])

/-- Puts a field before the first one with a later name. -/
def insertField (f : String × String) : List (String × String) → List (String × String)
  | [] => [f]
  | g :: gs => if f.1 < g.1 then f :: g :: gs else g :: insertField f gs

mutual

/-- The compact text. -/
def compact : Datum → String
  | null => "null"
  | flag b => if b then "true" else "false"
  | number n => toString n
  | text s => quote s
  | list items => "[" ++ String.intercalate "," (compactItems items) ++ "]"
  | record fields =>
    let sorted := (compactFields fields).foldr insertField []
    let written := sorted.map fun f => quote f.1 ++ ":" ++ f.2
    "\x7b" ++ String.intercalate "," written ++ "\x7d"

def compactItems : List Datum → List String
  | [] => []
  | d :: ds => compact d :: compactItems ds

def compactFields : List (String × Datum) → List (String × String)
  | [] => []
  | (k, d) :: fs => (k, compact d) :: compactFields fs

end

end Datum

/-- What an action can fail with, short of a panic. -/
inductive Failure where
  /-- A name stands for nothing. -/
  | missing (name : String)
  | fault (f : SchedFault)
  | os (e : OsError)
  deriving Inhabited

def Failure.datum : Failure → Datum
  | .missing name => .error "no_handle" name
  | .fault f => .osError f.kind f.message f.osNumber?
  | .os e => .osError "io" e.render e.number?

/-- A panic as an answer. -/
def panicDatum : Panic → Datum
  | .violation v => .error "ContractViolation" v.message
  | p => .error "panic" p.message

end Fibers.Script
