/-!
A counting semaphore with a count below `2 ^ 32`. Taking a permit needs a positive count; giving one
back fails where the count cannot grow, and leaves it as it is.
-/

namespace Fibers

structure Semaphore where
  count : Nat
  deriving DecidableEq, Inhabited, Repr

namespace Semaphore

/-- The largest count. -/
def maxCount : Nat := Nat.pow 2 32 - 1

/-- Takes a permit, if there is one. -/
def take? (s : Semaphore) : Option Semaphore :=
  match s.count with
  | 0 => none
  | n + 1 => some ⟨n⟩

/-- Gives a permit back, if the count can grow. -/
def give? (s : Semaphore) : Option Semaphore :=
  if s.count < maxCount then some ⟨s.count + 1⟩ else none

end Semaphore

end Fibers
