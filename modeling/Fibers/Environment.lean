import Fibers.Duration
import Fibers.Text.Blank
import Fibers.Text.Numeral

/-!
Environment variables. A variable has a value of bytes; one whose bytes are not valid UTF-8 counts
as unset. Readers of typed values ignore white space around the value and fall back to a default
when the rest is not of the type.
-/

namespace Fibers

/-- The variables that are set, by name. -/
structure Environment where
  vars : List (String × ByteArray)
  deriving Inhabited

namespace Environment

def empty : Environment := ⟨[]⟩

/-- The variables of `e`, over those of `base`. -/
def overlay (e base : Environment) : Environment := ⟨e.vars ++ base.vars⟩

/-- The text of a variable. -/
def text? (e : Environment) (key : String) : Option String :=
  match e.vars.lookup key with
  | some bytes => String.fromUTF8? bytes
  | none => none

/-- The integer a variable holds. -/
def integer? (e : Environment) (range : Text.IntRange) (key : String) : Option Int :=
  (e.text? key).bind fun s => Text.integer? range (Text.trim s.toList)

/-- The natural number below `2 ^ bits` a variable holds. -/
def natural? (e : Environment) (bits : Nat) (key : String) : Option Nat :=
  (e.integer? (.unsigned bits) key).map Int.toNat

def natural (e : Environment) (bits : Nat) (key : String) (default : Nat) : Nat :=
  (e.natural? bits key).getD default

/-- The truth value a variable names exactly. -/
def truth? (e : Environment) (key : String) : Option Bool :=
  (e.text? key).bind fun s =>
    match String.ofList (Text.trim s.toList) with
    | "true" => some true
    | "false" => some false
    | _ => none

/-- Whether a text is one of the words for "on", in letters of any case. -/
def isOn (s : String) : Bool :=
  match String.ofList (Text.lowerAscii s.toList) with
  | "1" | "true" | "yes" | "on" => true
  | _ => false

/-- Whether a variable is switched on; a set variable with any other text is off. -/
def switch (e : Environment) (key : String) (default : Bool) : Bool :=
  match e.text? key with
  | some s => isOn s
  | none => default

/-- The trimmed text of a variable. -/
def word? (e : Environment) (key : String) : Option String :=
  (e.text? key).map fun s => String.ofList (Text.trim s.toList)

def textOr (e : Environment) (key default : String) : String := (e.text? key).getD default

/-- The length of time a variable gives in milliseconds. -/
def millis (e : Environment) (key : String) (default : Duration) : Duration :=
  match e.natural? 64 key with
  | some n => Duration.ofMillis n
  | none => default

end Environment

end Fibers
