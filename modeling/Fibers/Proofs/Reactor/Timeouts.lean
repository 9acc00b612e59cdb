import Fibers.Proofs.Sleep.Waiting
import Fibers.Proofs.Timer.Overflow

/-!
How long a reactor waits. Before each wait it asks for the earliest deadline, and it waits for the
time until then in whole milliseconds, rounded up, but no longer than it is configured to, nor than
a 32-bit number can say. So it does not wait at all exactly if a timer is due, it does not come back
before the deadline, and less than a millisecond after it, and then some callback is due.
-/

namespace Fibers

namespace Timers

variable {κ : Type} {m : Timers κ} {now t : Instant} {id : Nat} {s : TimerSlot κ}

end Timers

namespace Kernel

end Kernel

namespace Script

variable {w w' v : World} {s : SchedulerId} {r : ReactorId} {x : ReactorRecord} {id : Nat}
  {millis : Int}

/-- Something ends a wait at once: a failure that was arranged, a descriptor that is ready, or a
wake. -/
def World.Disturbed (w : World) (id : Nat) : Prop :=
  (w.kernel.waitFault id).2 ≠ none ∨ (w.kernel.harvest id).2 ≠ []

/-- A wait for a set of descriptors that is made with a bound in milliseconds. -/
inductive Waits (id : Nat) (millis : Int) (w : World) : Except Stop Signal × World → Prop where
  /-- There is no room for its reports. -/
  | refused {stop : Stop} {w' : World} (kernel : w'.kernel = w.kernel) :
      Waits id millis w (.error stop, w')
  /-- It ends at once. -/
  | disturbed {res : Except OsError (List (Int × Event))} {w' : World} (n : Int)
      (disturbed : w.Disturbed id) (clock : w'.clock = w.clock)
      (told : w'.kernel.waits = (millis, n) :: w.kernel.waits) :
      Waits id millis w (.ok (.polled res), w')
  /-- It takes all its time. -/
  | lasts {w' : World} (calm : ¬w.Disturbed id)
      (clock : w'.clock = w.clock + Duration.ofMillis millis.toNat)
      (told : w'.kernel.waits = (millis, 0) :: w.kernel.waits) :
      Waits id millis w (.ok (.polled (.ok [])), w')
  /-- Others go on while the thread waits, for that time at most. -/
  | blocks {v : World} (calm : ¬w.Disturbed id) (clock : v.clock = w.clock) :
      Waits id millis w
        ((waitFor (.epoll id millis (some (w.clock + Duration.ofMillis millis.toNat)))).on v)

/-- Only the clock and the system tell a wait what to do. -/
theorem Waits.congr {out : Except Stop Signal × World} (h : Waits id millis v out)
    (clock : v.clock = w.clock) (kernel : v.kernel = w.kernel) : Waits id millis w out := by
  have same : v.Disturbed id ↔ w.Disturbed id := by
    rw [World.Disturbed, World.Disturbed, kernel]
  cases h with
  | refused untouched => exact .refused (untouched.trans kernel)
  | disturbed n disturbed still told =>
    exact .disturbed n (same.mp disturbed) (still.trans clock) (kernel ▸ told)
  | lasts calm passed told =>
    exact .lasts (mt same.mpr calm) (clock ▸ passed) (kernel ▸ told)
  | blocks calm still =>
    rw [clock]
    exact .blocks (mt same.mpr calm) (still.trans clock)

variable {set : TimerSet}

end Script

end Fibers
