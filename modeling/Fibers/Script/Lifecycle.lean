import Fibers.Script.Idle

/-!
Making, starting and stopping schedulers, and threads.

A scheduler that takes in the thread that makes it keeps the run loop of worker 0 in a root fiber,
which only `stop` resumes. To stop is to ask all run loops to end, to run the root fiber, and to
wait for the other workers.
-/

namespace Fibers.Script

/-- Makes a scheduler with one handle, which the caller holds; it takes over a handle of its hooks.
-/
def makeScheduler (config : SchedulerConfig) (hooks : Hooks) :
    Act (Except SchedFault SchedulerId) := do
  match config.fault? with
  | some f =>
    release hooks.handles
    return .error (.config f)
  | none =>
    modify fun w => { w with contextual := true }
    let w ← get
    if config.useCaller && w.currentScheduler.isSome then
      logError (announcement (.schedulerPresent config.name))
      release hooks.handles
      raise (.violation (.schedulerPresent config.name))
    let id ← freshId
    let fresh : SchedulerRecord :=
      { config := config
        hooks := hooks
        shared := .fresh
        root := none
        owner := if config.useCaller then some w.running else none
        workers := []
        threadIds := 0
        handles := 1 }
    modify fun w => { w with schedulers := w.schedulers.put id fresh }
    if config.useCaller then
      match ← makeFiber (.root id) config.stackSize false with
      | .error e =>
        release [.scheduler id]
        return .error e
      | .ok root =>
        updateThread fun t => { t with scheduler := some id, worker := some 0 }
        updateScheduler id fun r => { r with root := some root, threadIds := 1 }
    logDebug (s!"scheduler {config.name} created: {config.threads} thread(s), " ++
      s!"use_caller={config.useCaller}")
    return .ok id

/-- Makes a reactor with one handle, which the caller holds. -/
def makeReactor (config : ReactorConfig) : Act (Except SchedFault ReactorId) := do
  match config.fault? with
  | some f => return .error (.config f)
  | none =>
    match ← kernel (·.epollNew config.maxEvents) with
    | .error e =>
      logError s!"cannot create epoll instance: {e.render}"
      return .error (.poller e)
    | .ok epoll =>
      match Reactor.FdTable.fresh config.capacity with
      | .error e => return .error e
      | .ok table =>
        let timers ← freshId
        let id ← freshId
        modify fun w =>
          { w with
            timerSets := w.timerSets.put timers ⟨.empty, .epoll epoll⟩
            reactors := w.reactors.put id ⟨config, epoll, table, timers, 1⟩ }
        return .ok id

/-- Starts a thread. -/
def startThread (frames : List Frame) (scheduler : Option SchedulerId) : Act ThreadId := do
  let id ← freshId
  modify fun w => { w with threads := w.threads.put id (.fresh frames scheduler) }
  return id

/-- Waits for a thread to end; answers what it panicked with, if it did. -/
def joinThread (id : ThreadId) : Act Signal := do
  push (.threadJoined id)
  waitFor (.thread id)

/-- What a thread panicked with, if it did. -/
def World.panicOf (w : World) (id : ThreadId) : Option Panic :=
  match w.threads.get? id with
  | some t => t.ended.bind fun p => p
  | none => none

/-- The first thing a worker thread does. -/
def enterWorker (s : SchedulerId) (worker : Nat) : Act Signal := do
  updateScheduler s fun r => { r with threadIds := r.threadIds + 1 }
  updateThread fun t => { t with up := true }
  push (.workerEnd s)
  startWorker s worker

/-- The last thing a worker thread does. -/
def leaveWorker (s : SchedulerId) : Act Signal := do
  updateThread fun t => { t with scheduler := none, worker := none }
  release [.scheduler s]
  return .done .null

/-- Starts workers `first` and up, `count` in number. -/
def startWorkers (s : SchedulerId) (name : String) (first : Nat) :
    Nat → Act (Except SchedFault Unit)
  | 0 => return .ok ()
  | count + 1 => do
    match ← kernel (·.takeFault .spawn) with
    | some n =>
      let thread := s!"{name}-worker-{first}"
      let cause := OsError.code n
      logError s!"failed to spawn {thread}: {cause.render}"
      return .error (.spawn thread cause)
    | none =>
      retain (.scheduler s)
      let id ← startThread [.workerStart s first] none
      updateScheduler s fun r => { r with workers := r.workers ++ [id] }
      startWorkers s name (first + 1) count

/-- Starts the worker threads of a scheduler, once, and waits until they are up. -/
def start (s : SchedulerId) : Act Signal := do
  let r ← schedulerRecord s
  if r.shared.started then return .done .ok
  updateShared s Shared.start
  let c := r.config
  let first := if c.useCaller then 1 else 0
  match ← startWorkers s c.name first (c.threads - first) with
  | .error e => fail (.fault e)
  | .ok () =>
    push (.startReady s)
    waitFor (.workersUp (← schedulerRecord s).workers)

/-- The workers are up. -/
def startReady (s : SchedulerId) : Act Signal := do
  let c := (← schedulerRecord s).config
  log .info s!"scheduler {c.name} started with {c.threads} worker thread(s)"
  return .done .ok

/-- The rule that stopping a scheduler here would violate. -/
def World.stopFault? (w : World) (s : SchedulerId) (r : SchedulerRecord) : Option Violation :=
  match r.owner with
  | some owner => if owner = w.running then none else some (.foreignStop r.config.name)
  | none => if w.currentScheduler = some s then some (.stopFromOwnWorker r.config.name) else none

/-- Waits for workers to end. -/
def stopJoining (s : SchedulerId) : List ThreadId → Act Signal
  | [] => do
    let name ← schedulerName s
    log .info s!"scheduler {name} stopped"
    return .done .null
  | t :: rest => do
    match (← get).threads.get? t |>.bind (·.ended) with
    | none =>
      push (.stopJoining s (t :: rest))
      waitFor (.thread t)
    | some p =>
      let name ← schedulerName s
      if p.isSome then logError s!"worker of scheduler {name} panicked"
      stopJoining s rest

/-- Waits for all workers to end. -/
def stopJoin (s : SchedulerId) : Act Signal := do
  let workers := (← schedulerRecord s).workers
  updateScheduler s fun r => { r with workers := [] }
  stopJoining s workers

/-- Wakes `n` workers. -/
def tickleTimes (s : SchedulerId) : Nat → Act Unit
  | 0 => pure ()
  | n + 1 => do
    tickle s
    tickleTimes s n

/-- Whether a scheduler has no worker but the thread that made it, with a root fiber that waits to
be resumed for the first time or has ended. -/
def World.callerOnly (w : World) (r : SchedulerRecord) : Bool :=
  match r.root with
  | some root =>
    let state := w.fibers.state root
    r.config.threads == 1 && (state == .init || state == .term)
  | none => false

/-- Stops a scheduler, after the question whether there is anything to do. -/
def stopWorkers (s : SchedulerId) (r : SchedulerRecord) : Act Signal := do
  match (← get).stopFault? s r with
  | some v => violate v
  | none => pure ()
  updateShared s Shared.beginStop
  tickleTimes s r.config.threads
  push (.stopJoin s)
  match r.root with
  | none => return .done .null
  | some root =>
    let w ← get
    if (w.fibers.state root).isResumable && !w.isStopping s then
      retain (.fiber root)
      push (.release [.fiber root])
      resume root
    else return .done .null

/-- Stops a scheduler. -/
def stop (s : SchedulerId) : Act Signal := do
  updateShared s Shared.askStop
  let r ← schedulerRecord s
  if (← get).callerOnly r then
    logDebug s!"scheduler {r.config.name} stopping (caller only)"
    updateShared s Shared.beginStop
    if ← isStopping s then return .done .null
  stopWorkers s r

end Fibers.Script
