import Fibers.Proofs.Manager.Ample
import Fibers.Proofs.Scheduler.Fifo
import Fibers.Proofs.Timer.Owing

/-!
What happens to the work of a manager while its first stop runs. Each round may add to a history:
that a body is owed from now on, that it was dropped, that it has begun; and that a fiber goes to
sleep and goes on. The scripts of fibers may do what `World.Allows` lists; besides, the system may
change at any time, as long as it has room, and time may pass.
-/

namespace Fibers.Script

/-- Something that happens to the work of a manager. -/
inductive Note where
  /-- A body is to be run. -/
  | owed (body : Body)
  /-- It is no longer to be run. -/
  | dropped (body : Body)
  | begun (body : Body)
  /-- A fiber goes to sleep, and goes on. -/
  | asleep (id : FiberId)
  | awake (id : FiberId)
  deriving DecidableEq, Repr

/-- A body that somebody owes, other than those of a run loop. -/
def Body.isOwn : Body → Bool
  | .script .. | .timer _ => true
  | .root _ | .idle _ => false

def BlockRef.index? : BlockRef → Option Nat
  | .block i => some i
  | .unknown _ => none

def Signal.isDone : Signal → Bool
  | .done _ => true
  | _ => false

/-- Whether an action answered that it did what it was to do. -/
def Signal.isYes : Signal → Bool
  | .done (.flag b) => b
  | _ => false

namespace World

variable (w : World)

/-- The body that a fiber has not begun. -/
def bodyOf (id : FiberId) : Option Body := (w.fibers.get? id).bind (·.entry)

/-- The body of a task as an action names it. -/
def bodyNamed (label : String) : TaskSpec → Option Body
  | .fiber name => (w.names.fibers.get? name).bind w.bodyOf
  | .callback body own => body.index?.map fun i => .script i (own.getD label)
  | .self => none

/-- What a named timer owes. -/
def owedUnder (name : String) : List TimerBody :=
  match w.names.timers.get? name with
  | some (set, id) => (((w.timersOf set).slots.get? id).map Timers.owing).getD []
  | none => []

/-- The task of the handler of an event. -/
def handling (name : String) (fd : Int) (event : Event) : Option (Task Body) :=
  ((w.names.reactors.get? name).bind fun n => w.reactors.get? n.2).bind fun x =>
    ((x.table.slot fd).handler event).map Handler.task

/-- The callbacks of recurring timers that are due. -/
def recurringDue (r : ReactorId) : List TimerBody :=
  let m := w.timersOf ((w.reactors.get? r).getD default).timers
  ((Timers.takeDue w.clock m.heap m.slots).callbacks.filter (·.2)).map (·.1)

/-- What an action that ended with a signal did to the work. -/
def actionNotes (label : String) (s : Signal) : Action → List Note
  | .scheduler (.schedule _ task) | .scheduler (.scheduleOn _ task _) =>
    if s.isDone then (w.bodyNamed label task).toList.map .owed else []
  | .timer (.add _ _ _ body recurring) =>
    if s.isDone && !recurring then
      body.index?.toList.map fun i => .owed (.timer (.script i label))
    else []
  | .timer (.addGuarded _ _ _ body recurring object) =>
    if s.isDone && !recurring then
      body.index?.toList.flatMap fun i =>
        (w.names.objects.get? object).toList.map fun o => .owed (.timer (.guarded o i label))
    else []
  | .timer (.cancel name) =>
    if s.isYes then (w.owedUnder name).map fun b => .dropped (.timer b) else []
  | .reactor (.on _ _ _ body) =>
    if s.isDone then body.index?.toList.map fun i => .owed (.script i label) else []
  | .reactor (.add _ _ _ (some task)) =>
    if s.isDone then (w.bodyNamed label task).toList.map .owed else []
  | .reactor (.delete name fd event) =>
    if s.isYes then
      match w.handling name fd event with
      | some (.callback body) => [.dropped body]
      | _ => []
    else []
  | .fiber (.sleep _) =>
    match s, w.currentScheduler, w.thread.current with
    | .left .hold, some m, some id => [.owed (.timer (.wake m id)), .asleep id]
    | _, _, _ => []
  | _ => []

/-- What a round that ended with a signal did to the work. -/
def notes (s : Signal) : List Note :=
  match w.thread.frames with
  | .fiberStart id :: _ => ((w.bodyOf id).toList.filter Body.isOwn).map .begun
  | .steps (.perform _ a :: _) label :: _ => w.actionNotes label s a
  | .release [.scheduler _, .reactor _] :: .answerClock :: _ =>
    w.thread.current.toList.map .awake
  | .idlePolled _ r :: _ => (w.recurringDue r).map fun b => .owed (.timer b)
  | _ => []

/-- A fiber of a script that has not begun and is not queued. -/
structure Fresh (id : FiberId) : Prop where
  record : ∃ r block label, w.fibers.get? id = some r ∧ r.state = .init ∧
    r.entry = some (.script block label)
  frames : w.saved.get? id = some [.fiberStart id]
  free : ∀ s x, w.schedulers.get? s = some x → ∀ e ∈ x.shared.queue, e.task ≠ .fiber id

/-- A task as an action names it: a callback, or a fresh fiber. -/
inductive Offers : TaskSpec → Prop where
  | callback (body : BlockRef) (label : Option String) : Offers (.callback body label)
  | fiber (name : String)
      (fresh : ∀ id, w.names.fibers.get? name = some id → w.Fresh id) : Offers (.fiber name)

/-- The actions of the scripts of fibers. Fibers are made under new names, tasks are queued once,
and events have callbacks. -/
inductive Allows : Action → Prop where
  | log (value : Datum) : Allows (.fiber (.log value))
  | spawn (name : String) (spec : SpawnSpec) (new : w.names.fibers.get? name = none) :
    Allows (.fiber (.spawn name spec))
  | schedule (name : String) {task : TaskSpec} (offers : w.Offers task) :
    Allows (.scheduler (.schedule name task))
  | scheduleOn (name : String) {task : TaskSpec} (offers : w.Offers task) :
    Allows (.scheduler (.scheduleOn name task 0))
  | yields : Allows (.fiber .yieldReady)
  | sleeps (d : Duration) : Allows (.fiber (.sleep d))
  | adds (timers name : String) (delay : Duration) (body : BlockRef) (recurring : Bool) :
    Allows (.timer (.add timers name delay body recurring))
  | addsGuarded (timers name : String) (delay : Duration) (body : BlockRef) (recurring : Bool)
      (object : String) : Allows (.timer (.addGuarded timers name delay body recurring object))
  | cancels (name : String) : Allows (.timer (.cancel name))
  | refreshes (name : String) : Allows (.timer (.refresh name))
  | handles (name : String) (fd : Int) {event : Event} (single : event.isSingle = true)
      (body : BlockRef) : Allows (.reactor (.on name fd event body))
  | handlesAs (name : String) (fd : Int) {event : Event} (single : event.isSingle = true)
      (body : BlockRef) (label : Option String) :
    Allows (.reactor (.add name fd event (some (.callback body label))))
  | deletes (name : String) (fd : Int) {event : Event} (single : event.isSingle = true) :
    Allows (.reactor (.delete name fd event))
  | fires (name : String) (fd : Int) {event : Event} (single : event.isSingle = true) :
    Allows (.reactor (.cancel name fd event))
  | firesAll (name : String) (fd : Int) : Allows (.reactor (.cancelAll name fd))

/-- A step that the thread comes to next is one that scripts may take. -/
def Lawful : Prop :=
  ∀ step rest label base, w.thread.frames = .steps (step :: rest) label :: base →
    ∃ verb a, step = .perform verb a ∧ w.Allows a

/-- The script on the main stack goes on with a step that it may take. -/
def Works : Prop := w.thread.frames ≠ [] ∧ w.Lawful

/-- The stop has come back to the script on the main stack. -/
def Returned (outer : List Frame) : Prop := w.thread.frames = outer ∧ w.inFiber = false

/-- No deadline overflowed in the round that led here. -/
def Timely : Prop := w.thread.signal ≠ .raised .instantOverflow

end World

/-- What has happened since a world, the last first, in rounds each of which begins as it may. -/
inductive History (epoll : Nat) (may : World → Prop) (start : World) (opening : List Note) :
    World → List Note → Prop where
  | start : History epoll may start opening start opening
  | round {w w' : World} {notes : List Note} (past : History epoll may start opening w notes)
      (fit : may w) (next : w.round = some w') (timely : w'.Timely) :
    History epoll may start opening w' (w.notes w'.thread.signal ++ notes)
  | outside {w : World} {notes : List Note} (past : History epoll may start opening w notes)
      {k : Kernel.State} (ample : k.Ample epoll) {t : Instant} (later : w.clock ≤ t) :
    History epoll may start opening { w with kernel := k, clock := t } notes

end Fibers.Script
