/-!
Identities of fibers. Identities are handed out from one upwards; zero stands for "no fiber".
-/

namespace Fibers

/-- The identity of a fiber, or of none. -/
structure FiberId where
  val : Nat
  deriving DecidableEq, Inhabited, Repr

namespace FiberId

def none : FiberId := ⟨0⟩

def isNone (i : FiberId) : Bool := i.val == 0

def isSome (i : FiberId) : Bool := i.val != 0

def render (i : FiberId) : String := if i.isNone then "none" else toString i.val

/-- The text of an identity inside the text of a record. -/
def describe (i : FiberId) : String :=
  if i.isNone then "FiberId(NONE)" else s!"FiberId({i.val})"

end FiberId

end Fibers
