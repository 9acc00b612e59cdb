import Fibers.FiberState
import Fibers.Queue

/-!
What the workers of a scheduler share, and what becomes of a fiber that leaves the hands of a
worker.

`active` counts the entries that were taken and are not yet accounted for. The run loops may end
once a stop was asked for, the queue is empty and nothing is active.
-/

namespace Fibers

/-- The shared part of a scheduler whose callbacks have type `β`. -/
structure Shared (β : Type) where
  queue : TaskQueue β
  active : Nat
  /-- Workers inside their idle fiber. -/
  idle : Nat
  /-- Whether the worker threads were started. -/
  started : Bool
  stopping : Bool
  /-- Whether a stop was ever asked for. -/
  autoStop : Bool
  deriving Inhabited

namespace Shared

variable {β : Type}

/-- Before the start a scheduler counts as stopping. -/
def fresh : Shared β := ⟨[], 0, 0, false, true, false⟩

/-- Appends entries; answers whether a worker should be woken. -/
def push (s : Shared β) (added : List (QueueEntry β)) : Shared β × Bool :=
  let (queue, wake) := s.queue.push added
  ({ s with queue := queue }, wake)

/-- What a worker that looks for work does to the shared part. -/
structure Taken (β : Type) where
  shared : Shared β
  entry : Option (QueueEntry β)
  /-- Whether another worker should be woken. -/
  wake : Bool

/-- A worker takes the next entry that it may run. -/
def take (s : Shared β) (running : FiberId → Bool) (worker : Nat) : Taken β :=
  let pick := s.queue.takeNext running worker
  { shared :=
      { s with
        queue := pick.rest
        active := if pick.entry.isSome then s.active + 1 else s.active }
    entry := pick.entry
    wake := pick.wake }

/-- An entry that was taken is accounted for. -/
def settle (s : Shared β) : Shared β := { s with active := s.active - 1 }

/-- A worker enters its idle fiber. -/
def enterIdle (s : Shared β) : Shared β := { s with idle := s.idle + 1 }

/-- A worker comes back from its idle fiber. -/
def leaveIdle (s : Shared β) : Shared β := { s with idle := s.idle - 1 }

/-- The worker threads are being started. -/
def start (s : Shared β) : Shared β := { s with started := true, stopping := false }

/-- A stop was asked for. -/
def askStop (s : Shared β) : Shared β := { s with autoStop := true }

/-- The run loops shall end once there is nothing left to run. -/
def beginStop (s : Shared β) : Shared β := { s with stopping := true }

/-- Whether the run loops may end as far as the shared part is concerned. -/
def isDone (s : Shared β) : Bool := s.autoStop && s.stopping && s.queue.isEmpty && s.active == 0

end Shared

/-- What a worker does with the fiber that it resumed. -/
inductive Aftermath where
  /-- It goes to the end of the queue, for any worker. -/
  | requeue
  /-- It is kept for another callback. -/
  | recycle
  /-- The worker lets go of it. -/
  | dismiss
  deriving DecidableEq, Inhabited, Repr

namespace Aftermath

/-- After a fiber of the queue left in a state. -/
def ofFiber (left : FiberState) : Aftermath := if left = .ready then requeue else dismiss

/-- After the fiber of a callback left in a state, when `pooled` fibers are kept already and there
is room for `capacity`. -/
def ofCallback (left : FiberState) (pooled capacity : Nat) : Aftermath :=
  match left with
  | .ready => requeue
  | .term | .except => if pooled < capacity then recycle else dismiss
  | _ => dismiss

end Aftermath

end Fibers
