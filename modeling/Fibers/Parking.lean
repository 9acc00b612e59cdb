/-!
A place where idle workers wait. A wake that finds nobody waiting is kept as a permit, up to a
bound, so a worker that decided to wait just before the wake does not miss it.
-/

namespace Fibers

structure Parking where
  permits : Nat
  deriving DecidableEq, Inhabited, Repr

namespace Parking

def fresh : Parking := ⟨0⟩

/-- The largest number of permits kept. -/
def maxPermits : Nat := 1024

/-- Wakes one worker now or the next one that comes to wait. -/
def wake (p : Parking) : Parking :=
  if p.permits < maxPermits then ⟨p.permits + 1⟩ else p

/-- Leaves at once by using up a permit, if there is one. -/
def take? (p : Parking) : Option Parking :=
  match p.permits with
  | 0 => none
  | n + 1 => some ⟨n⟩

end Parking

end Fibers
