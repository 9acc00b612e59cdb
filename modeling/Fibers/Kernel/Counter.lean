/-!
A counter that signals: each signal adds to it, and draining it answers the sum of the signals since
the last time. The largest sum is two below `2 ^ 64`; a signal that does not fit fails and leaves
the counter as it is.
-/

namespace Fibers.Kernel

structure Counter where
  value : Nat
  deriving DecidableEq, Inhabited, Repr

namespace Counter

def fresh : Counter := ⟨0⟩

/-- The largest sum of signals. -/
def maxValue : Nat := Nat.pow 2 64 - 2

/-- Adds `n`, if the sum fits. -/
def add? (c : Counter) (n : Nat) : Option Counter :=
  if n ≤ maxValue ∧ c.value + n ≤ maxValue then some ⟨c.value + n⟩ else none

end Counter

end Fibers.Kernel
