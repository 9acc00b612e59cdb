import Fibers.FiberId

/-!
The queue of tasks that workers share. An entry may be pinned to one worker. A worker takes the
oldest entry that is not pinned elsewhere and is not a fiber that is still running; the answer also
says whether another worker should be told that something is left to do.
-/

namespace Fibers

/-- Work for a scheduler: a fiber to resume or a body to run on a fiber of the worker's own. -/
inductive Task (β : Type) where
  | fiber (id : FiberId)
  | callback (body : β)
  deriving DecidableEq, Inhabited, Repr

def Task.describe {β : Type} : Task β → String
  | .fiber id => s!"Task::Fiber({id.render})"
  | .callback _ => "Task::Callback"

/-- A queued task, pinned to a worker or free. -/
structure QueueEntry (β : Type) where
  task : Task β
  worker : Option Nat
  deriving DecidableEq, Inhabited, Repr

abbrev TaskQueue (β : Type) := List (QueueEntry β)

namespace TaskQueue

variable {β : Type}

/-- Whether a worker may take an entry now. -/
def eligible (running : FiberId → Bool) (worker : Nat) (e : QueueEntry β) : Bool :=
  (match e.worker with
    | some w => w == worker
    | none => true) &&
  (match e.task with
    | .fiber id => !running id
    | .callback _ => true)

/-- Appends tasks; a wake is due if the queue was empty and no longer is. -/
def push (q : TaskQueue β) (added : List (QueueEntry β)) : TaskQueue β × Bool :=
  (q ++ added, q.isEmpty && !added.isEmpty)

/-- What a worker finds: the entry it takes, the queue without it, and whether a wake is due. -/
structure Pick (β : Type) where
  entry : Option (QueueEntry β)
  rest : TaskQueue β
  wake : Bool

/-- Scans the queue; `skipped` tells whether an entry was passed over. -/
def scan (running : FiberId → Bool) (worker : Nat) (skipped : Bool) : TaskQueue β → Pick β
  | [] => ⟨none, [], skipped⟩
  | e :: q =>
    if eligible running worker e then ⟨some e, q, skipped || !q.isEmpty⟩
    else
      let pick := scan running worker true q
      { pick with rest := e :: pick.rest }

/-- Takes the first entry a worker may run. -/
def takeNext (running : FiberId → Bool) (worker : Nat) (q : TaskQueue β) : Pick β :=
  scan running worker false q

end TaskQueue

end Fibers
