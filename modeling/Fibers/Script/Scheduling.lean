import Fibers.Script.Switch

/-!
Schedulers at work: the shared queue, waking, the question whether run loops may end, moving a fiber
to another scheduler, and the run loop of a worker.

A turn of the run loop takes the next entry of the queue and resumes it, or resumes the idle fiber
if there is nothing to take. `active` counts the entries taken and not yet accounted for.
-/

namespace Fibers.Script

/-- Waits until something happens. -/
def waitFor (w : Wait) : Act Signal := do
  updateThread fun t => { t with wait := some w }
  return .done .null

/-- Signals a set of descriptors; a failure is only written to the log. -/
def wakePoller (epoll : Nat) (failure : String) : Act Unit := do
  match ← kernel (·.wake epoll) with
  | .ok () => pure ()
  | .error e => logError s!"{failure}: {e.render}"

/-- Wakes a worker of a scheduler that waits. -/
def tickle (s : SchedulerId) : Act Unit := do
  match (← schedulerRecord s).hooks with
  | .parking place => updateScheduler s fun r => { r with hooks := .parking place.wake }
  | .scripted idle stopping n label =>
    updateScheduler s fun r => { r with hooks := .scripted idle stopping (n + 1) label }
  | .reactor id =>
    match (← get).reactors.get? id with
    | some r => wakePoller r.epoll "reactor tickle failed"
    | none => pure ()

/-- Whether a reactor waits for nothing. -/
def World.reactorIsQuiet (w : World) (id : ReactorId) : Bool :=
  match w.reactors.get? id with
  | some r =>
    r.table.pending == 0 &&
      match w.timerSets.get? r.timers with
      | some t => !t.timers.hasTimer
      | none => true
  | none => true

/-- Whether the run loops of a scheduler may end. -/
def World.isStopping (w : World) (s : SchedulerId) : Bool :=
  match w.schedulers.get? s with
  | none => true
  | some r =>
    match r.hooks with
    | .parking _ => r.shared.isDone
    | .scripted _ stopping _ _ => stopping.getD r.shared.isDone
    | .reactor id => w.reactorIsQuiet id && r.shared.isDone

def isStopping (s : SchedulerId) : Act Bool := do return (← get).isStopping s

/-- Changes what the workers of a scheduler share. -/
def updateShared (s : SchedulerId) (f : Shared Body → Shared Body) : Act Unit :=
  updateScheduler s fun r => { r with shared := f r.shared }

/-- Appends entries to the queue of a scheduler, which takes over the handles of their tasks. -/
def enqueue (s : SchedulerId) (added : List (QueueEntry Body)) : Act Unit := do
  let (shared, wake) := (← schedulerRecord s).shared.push added
  updateShared s fun _ => shared
  if wake then tickle s

/-- Takes the next entry that a worker may run. -/
def takeNext (s : SchedulerId) (worker : Nat) : Act (Option (QueueEntry Body)) := do
  let w ← get
  let taken := (← schedulerRecord s).shared.take (fun id => w.fibers.state id == .exec) worker
  updateShared s fun _ => taken.shared
  if taken.wake then tickle s
  return taken.entry

/-- An entry that was taken is accounted for. -/
def settle (s : SchedulerId) : Act Unit := updateShared s Shared.settle

/-- Moves the running fiber to a scheduler and, if one is given, to a worker of it. -/
def switchTo (s : SchedulerId) (worker : Option Nat) : Act Signal := do
  let w ← get
  if w.currentScheduler = some s ∧ (worker = none ∨ worker = w.thread.worker) then
    return .done .null
  if !w.inFiber then violate .switchOutsideFiber
  let id ← currentOrMain
  retain (.fiber id)
  enqueue s [⟨.fiber id, worker⟩]
  yieldTo .hold

/-- The thread becomes a worker. -/
def startWorker (s : SchedulerId) (worker : Nat) : Act Signal := do
  updateThread fun t => { t with scheduler := some s, worker := some worker }
  let config := (← schedulerRecord s).config
  logDebug s!"scheduler {config.name} worker {worker} running"
  match ← makeFiber (.idle s) config.stackSize true with
  | .error e =>
    logError s!"worker {worker} cannot create its idle fiber: {e.message}"
    return .done .null
  | .ok idle =>
    push (.loop ⟨s, worker, idle, []⟩)
    allocate config.pool 8
    return .done .null

/-- A turn of the run loop in which a fiber was taken. -/
def turnFiber (l : Loop) (id : FiberId) : Act Signal := do
  let state := (← get).fibers.state id
  if state.isResumable then
    push (.loopFiber l id)
    resume id
  else
    logDebug s!"skipping fiber {id.render} in state {state.render}"
    settle l.scheduler
    release [.fiber id]
    push (.loop l)
    return .done .null

/-- A turn of the run loop in which a callback was taken. -/
def turnCallback (l : Loop) (body : Body) : Act Signal := do
  match l.pool with
  | id :: pool =>
    let l := { l with pool := pool }
    push (.loopCallback l id)
    resetFiber id body
    resume id
  | [] =>
    match ← makeFiber body (← schedulerRecord l.scheduler).config.stackSize true with
    | .ok id =>
      push (.loopCallback l id)
      resume id
    | .error e =>
      logError s!"dropping callback, no fiber available: {e.message}"
      settle l.scheduler
      push (.loop l)
      return .done .null

/-- A turn of the run loop in which there was nothing to take. -/
def turnIdle (l : Loop) : Act Signal := do
  if ((← get).fibers.state l.idleFiber).isTerminal then
    logDebug s!"worker {l.worker} idle fiber finished"
    release l.handles
    return .done .null
  updateShared l.scheduler Shared.enterIdle
  push (.loopIdle l)
  resume l.idleFiber

/-- A turn of the run loop up to the switch to a fiber. -/
def turn (l : Loop) : Act Signal := do
  match ← takeNext l.scheduler l.worker with
  | none => turnIdle l
  | some e =>
    match e.task with
    | .fiber id => turnFiber l id
    | .callback body => turnCallback l body

/-- Accounts for the entry of a turn and goes on with the loop. -/
def endTurn (l : Loop) (id : FiberId) (a : Aftermath) : Act Signal := do
  match a with
  | .requeue =>
    enqueue l.scheduler [⟨.fiber id, none⟩]
    settle l.scheduler
    push (.loop l)
  | .recycle =>
    settle l.scheduler
    push (.loop { l with pool := id :: l.pool })
  | .dismiss =>
    settle l.scheduler
    release [.fiber id]
    push (.loop l)
  return .done .null

/-- The rest of a turn, after a fiber of the queue left in a state. -/
def turnedFiber (l : Loop) (id : FiberId) (left : FiberState) : Act Signal := do
  if left = .except then log .warn s!"fiber {id.render} ended with a panic"
  endTurn l id (.ofFiber left)

/-- The rest of a turn, after the fiber of a callback left in a state. -/
def turnedCallback (l : Loop) (id : FiberId) (left : FiberState) : Act Signal := do
  let capacity := (← schedulerRecord l.scheduler).config.pool
  endTurn l id (.ofCallback left l.pool.length capacity)

/-- The rest of a turn, after the idle fiber gave control back. -/
def turnedIdle (l : Loop) : Act Signal := do
  updateShared l.scheduler Shared.leaveIdle
  push (.loop l)
  return .done .null

end Fibers.Script
