/-!
Levels of diagnostic lines, from `off`, at which nothing is written, to `trace`, at which
everything is.
-/

namespace Fibers.Log

inductive Level where
  | off
  | error
  | warn
  | info
  | debug
  | trace
  deriving DecidableEq, Inhabited, Repr

namespace Level

def rank : Level → Nat
  | off => 0
  | error => 1
  | warn => 2
  | info => 3
  | debug => 4
  | trace => 5

/-- The level of rank `n`; every rank past the last one is `trace`. -/
def ofRank : Nat → Level
  | 0 => off
  | 1 => error
  | 2 => warn
  | 3 => info
  | 4 => debug
  | _ => trace

def name : Level → String
  | off => "off"
  | error => "error"
  | warn => "warn"
  | info => "info"
  | debug => "debug"
  | trace => "trace"

/-- The name of a level as it stands inside the text of a record. -/
def describe : Level → String
  | off => "Off"
  | error => "Error"
  | warn => "Warn"
  | info => "Info"
  | debug => "Debug"
  | trace => "Trace"

/-- The mark at the start of a line, padded to one width. -/
def mark : Level → String
  | off => ""
  | error => "[ERROR]"
  | warn => "[WARN] "
  | info => "[INFO] "
  | debug => "[DEBUG]"
  | trace => "[TRACE]"

/-- The level that a text names in letters of any case, or by its rank. -/
def parse? (s : String) : Option Level :=
  match String.ofList (s.toList.map Char.toLower) with
  | "off" | "0" => some off
  | "error" | "1" => some error
  | "warn" | "2" => some warn
  | "info" | "3" => some info
  | "debug" | "4" => some debug
  | "trace" | "5" => some trace
  | _ => none

/-- Whether a line of level `l` is written at the threshold `t`. -/
def shownAt (l t : Level) : Bool := l != off && decide (l.rank ≤ t.rank)

@[simp] theorem ofRank_rank (l : Level) : ofRank l.rank = l := by cases l <;> rfl

end Level

end Fibers.Log
