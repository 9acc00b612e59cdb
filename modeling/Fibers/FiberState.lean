/-!
The states of a fiber and the three classes of states on which the rules of resuming, resetting
and finishing depend.
-/

namespace Fibers

inductive FiberState where
  | init
  | hold
  | exec
  | term
  | ready
  | except
  deriving DecidableEq, Inhabited, Repr

namespace FiberState

def code : FiberState → Nat
  | init => 0
  | hold => 1
  | exec => 2
  | term => 3
  | ready => 4
  | except => 5

/-- The state with number `n`; every number past the last one reads as `except`. -/
def ofCode : Nat → FiberState
  | 0 => init
  | 1 => hold
  | 2 => exec
  | 3 => term
  | 4 => ready
  | _ => except

/-- Whether the body has run to its end. -/
def isTerminal : FiberState → Bool
  | term | except => true
  | _ => false

def isResumable : FiberState → Bool
  | init | hold | ready => true
  | _ => false

/-- Whether a new body may be installed. -/
def isResettable : FiberState → Bool
  | init | term | except => true
  | _ => false

def render : FiberState → String
  | init => "INIT"
  | hold => "HOLD"
  | exec => "EXEC"
  | term => "TERM"
  | ready => "READY"
  | except => "EXCEPT"

/-- The text of a state inside the text of a record. -/
def describe : FiberState → String
  | init => "Init"
  | hold => "Hold"
  | exec => "Exec"
  | term => "Term"
  | ready => "Ready"
  | except => "Except"

@[simp] theorem ofCode_code (s : FiberState) : ofCode s.code = s := by cases s <;> rfl

end FiberState

end Fibers
