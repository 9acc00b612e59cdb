import Fibers.Proofs.Reactor.Registry
import Fibers.Proofs.Reactor.Queueing

/-!
Requests to a reactor, and what becomes of them. Requests arm and disarm events of descriptors and
hand over what the poller reported; the reference is a `Registry`, which knows nothing of masks,
slots, table sizes and pending counts, and asks the poller the same questions.
-/

namespace Fibers.Script

open Reactor (Registry)

/-- A reactor, its scheduler and their name. -/
structure Manager where
  name : String
  scheduler : SchedulerId
  reactor : ReactorId

/-- A request to a reactor. -/
inductive Request where
  | add (fd : Int) (event : Event) (task : Task Body)
  | delete (fd : Int) (event : Event)
  | cancel (fd : Int) (event : Event)
  | cancelAll (fd : Int)
  /-- The poller reported events of numbers. -/
  | dispatch (found : List (Int × Event))

/-- What a request does. -/
def Request.act (io : Manager) : Request → Act Signal
  | add fd event task => addEvent io.scheduler io.reactor fd event (some task)
  | delete fd event => performReactor "" (.delete io.name fd event)
  | cancel fd event => performReactor "" (.cancel io.name fd event)
  | cancelAll fd => performReactor "" (.cancelAll io.name fd)
  | dispatch found => do
    Script.dispatch io.reactor found
    return .done .null

abbrev Answer := Except OsError Unit

/-- What becomes of a request. -/
structure Reply where
  registry : Registry Handler
  answer : Signal
  /-- The handlers whose tasks are queued, in this order. -/
  fired : List Handler
  /-- The handles that are let go of without being used. -/
  dropped : List Handle

namespace Registry

variable (m : Registry Handler)

/-- A handler where there is none, as the poller answers. -/
def enter (target : SchedulerId) (fd : Int) (e : Event) (task : Task Body) : Answer → Reply
  | .error cause =>
    let op := if (m.armed fd).isEmpty then RegisterOp.add else .modify
    ⟨m, .failed (.fault (.register fd op cause)), [], taskHandles task⟩
  | .ok () => ⟨m.put (fd, e) ⟨target, task⟩, .done .ok, [], []⟩

/-- A handler for a single event of a number that has none. -/
def add (target : SchedulerId) (fd : Int) (e : Event) (task : Task Body) (told : Answer) : Reply :=
  if !e.isSingle then ⟨m, .raised (.violation (.eventNotSingle e)), [], taskHandles task⟩
  else if fd < 0 then ⟨m, .failed (.fault (.invalidFd fd)), [], taskHandles task⟩
  else if m.contains (fd, e) then
    ⟨m, .raised (.violation (.alreadyWaiting fd e)), [], taskHandles task⟩
  else enter m target fd e task told

/-- The handler of an event is dropped, if there is one and the poller agrees. -/
def delete (fd : Int) (e : Event) (told : Answer) : Reply :=
  match m.get? (fd, e), told with
  | some h, .ok () => ⟨m.erase (fd, e), .done (.flag true), [], h.handles⟩
  | _, _ => ⟨m, .done (.flag false), [], []⟩

/-- The handler of an event fires, if there is one and the poller agrees. -/
def cancel (fd : Int) (e : Event) (told : Answer) : Reply :=
  match m.get? (fd, e), told with
  | some h, .ok () => ⟨m.erase (fd, e), .done (.flag true), [h], []⟩
  | _, _ => ⟨m, .done (.flag false), [], []⟩

/-- All handlers of a number fire, reading first, if there are any and the poller agrees. -/
def cancelAll (fd : Int) (told : Answer) : Reply :=
  match (m.armed fd).isEmpty, told with
  | false, .ok () =>
    let (m, hs) := m.fire fd [.readable, .writable]
    ⟨m, .done (.flag true), hs, []⟩
  | _, _ => ⟨m, .done (.flag false), [], []⟩

/-- The reported events of a number that are armed fire, reading first, if the poller agrees. -/
def report (fd : Int) (reported : Event) (told : Answer) : Registry Handler × List Handler :=
  match told with
  | .ok () => m.fire fd (reported.inter (m.armed fd)).members
  | .error _ => (m, [])

/-- What was reported is handled record by record, with the poller's answer for each of them. -/
def reports (m : Registry Handler) :
    List (Int × Event) → List Answer → Registry Handler × List Handler
  | (fd, e) :: found, told :: rest =>
    let (m, hs) := report m fd e told
    let (m, hs') := reports m found rest
    (m, hs ++ hs')
  | _, _ => (m, [])

/-- What becomes of a request, given the answers of the poller; new handlers are stored with
`target`. -/
def reply (target : SchedulerId) : Request → List Answer → Reply
  | .add fd e task, told => add m target fd e task (told.headD (.ok ()))
  | .delete fd e, told => delete m fd e (told.headD (.ok ()))
  | .cancel fd e, told => cancel m fd e (told.headD (.ok ()))
  | .cancelAll fd, told => cancelAll m fd (told.headD (.ok ()))
  | .dispatch found, told =>
    let (m, hs) := reports m found told
    ⟨m, .done .null, hs, []⟩

end Registry

/-- What the poller of a reactor answers to a change of what is armed of a number. -/
def World.pollerAnswer (w : World) (r : ReactorId) (fd : Int) (before after : Event) : Answer :=
  let epoll := ((w.reactors.get? r).getD default).epoll
  ((Reactor.epollPoller epoll).tell w.kernel fd before after).2

/-- What the poller answers to each record of a report, in the world in which it is its turn. -/
def World.reportAnswers (r : ReactorId) :
    World → Registry Handler → List (Int × Event) → List Answer
  | _, _, [] => []
  | w, m, (fd, e) :: found =>
    let left := (m.armed fd).without (e.inter (m.armed fd))
    let told := w.pollerAnswer r fd (m.armed fd) left
    told :: reportAnswers r ((dispatch r [(fd, e)]).on w).2 (Registry.report m fd e told).1 found

/-- What the poller answers to the questions that a request leads to. -/
def World.answers (w : World) (r : ReactorId) (m : Registry Handler) : Request → List Answer
  | .add fd e _ => [w.pollerAnswer r fd (m.armed fd) ((m.armed fd).union e)]
  | .delete fd e | .cancel fd e =>
    [w.pollerAnswer r fd (m.armed fd) ((m.armed fd).without e)]
  | .cancelAll fd => [w.pollerAnswer r fd (m.armed fd) .none]
  | .dispatch found => w.reportAnswers r m found

/-- The name of a manager stands for its scheduler and its reactor, which somebody holds besides the
schedulers that idle in it. -/
structure Manages (io : Manager) (w : World) : Prop where
  named : w.names.reactors.get? io.name = some (io.scheduler, io.reactor)
  held : w.HeldBesides 0 io.reactor

/-- The requests of the runs: there is memory for the table to grow, and single events are
disarmed. -/
def Request.Allowed (io : Manager) (w : World) : Request → Prop
  | .add fd _ _ =>
    ∀ x, w.reactors.get? io.reactor = some x → ∀ n, x.table.reserve fd ≠ .error (.tableGrowth n)
  | .delete _ e | .cancel _ e => e.isSingle = true
  | .cancelAll _ | .dispatch _ => True

/-- What becomes of a request in a world: new handlers are stored with the scheduler of the thread,
or with the manager's own if it has none. -/
def World.replyTo (w : World) (io : Manager) (m : Registry Handler) (q : Request) : Reply :=
  Registry.reply m (w.currentScheduler.getD io.scheduler) q (w.answers io.reactor m q)

/-- The worlds that a run of requests reaches, each with the registry that the same requests lead
to. Between the requests other code may do anything but work on the reactor's table. -/
inductive Serves (io : Manager) (start : World) : Registry Handler → World → Prop where
  | start : Serves io start .empty start
  | elsewhere {m : Registry Handler} {w w' : World} (run : Serves io start m w)
      (manages : Manages io w')
      (table : ∀ x x', w.reactors.get? io.reactor = some x →
        w'.reactors.get? io.reactor = some x' → x'.table = x.table) :
      Serves io start m w'
  | request {m : Registry Handler} {w : World} (run : Serves io start m w) (q : Request)
      (allowed : q.Allowed io w) :
      Serves io start (w.replyTo io m q).registry (w.perform (q.act io)).2

/-- A world leads to another one, whose table holds the handlers of a registry. -/
structure Leads (io : Manager) (w w' : World) (m : Registry Handler) (fired : List Handler) :
    Prop where
  manages : Manages io w'
  table : ∀ x, w'.reactors.get? io.reactor = some x → x.table.Holds m
  /-- The tasks that fired are at the ends of the queues of their schedulers, in order. -/
  queues : ∀ s x', w'.schedulers.get? s = some x' →
    ∃ x, w.schedulers.get? s = some x ∧
      x'.shared.queue = x.shared.queue ++ Added.fired fired s

/-- A request was served as its reply says. -/
structure Served (io : Manager) (w : World) (act : Act Signal) (reply : Reply) : Prop where
  answer : (w.perform act).1 = reply.answer
  leads : Leads io w (w.perform act).2 reply.registry reply.fired
  /-- What is dropped is let go of, and nothing else is. -/
  dropped : reply.dropped ≠ [] →
    ∃ v, v.fibers = w.fibers ∧ v.schedulers = w.schedulers ∧
      (release reply.dropped).on v = (.ok (), (w.perform act).2)

end Fibers.Script
