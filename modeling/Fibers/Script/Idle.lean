import Fibers.Script.Scheduling

/-!
What workers do when there is nothing to do. An idle fiber waits in the way of its scheduler's
hooks, gives control back to the run loop after each wait, and ends once the run loop may end. The
idle fiber of a reactor waits for its poller no longer than until the next timer, and then queues
the callbacks of due timers and the handlers of fired events.
-/

namespace Fibers.Script

/-- Changes a parking place, if one stands under an identity. -/
def parkAt (place : Option Parking) (keep : Parking → Act Unit) (wait : Wait) : Act Signal := do
  match place.bind Parking.take? with
  | some p =>
    keep p
    return .done (.flag true)
  | none => if (← get).isConcurrent then waitFor wait else return .done (.flag false)

/-- The reading of the clock after a time, if a time is given. -/
def deadline (d : Option Duration) : Act (Option Instant) := do
  let now := (← get).clock
  return d.map (now + ·)

/-- Waits in the parking place of a scheduler. -/
def parkWorker (s : SchedulerId) (d : Duration) : Act Signal := do
  let until? ← deadline (some d)
  match (← schedulerRecord s).hooks with
  | .parking place =>
    let keep := fun p => updateScheduler s fun r => { r with hooks := .parking p }
    parkAt (some place) keep (.hooksPlace s until?)
  | _ => return .done (.flag false)

/-- A round of an idle fiber that parks. -/
def idleParking (s : SchedulerId) : Act Signal := do
  if ← isStopping s then return .done .null
  push (.idleParked s)
  parkWorker s (← schedulerRecord s).config.parkTimeout

/-- The rest of a round: the run loop looks for work. -/
def idleParked (s : SchedulerId) : Act Signal := do
  push (.idleParking s)
  yieldTo .hold

/-- The number of rounds after which a scripted idle fiber gives up. -/
def maxIdleRounds : Nat := 20

/-- Runs the next script of a scripted idle fiber. -/
def idleScripts (s : SchedulerId) (label : String) : List Nat → Act Signal
  | [] => do
    push (.idleRounds s maxIdleRounds label)
    return .done .null
  | block :: rest => do
    push (.idleScriptDone s rest label)
    startBlock block label

/-- The run loop looks for work after a script. -/
def idleScriptDone (s : SchedulerId) (label : String) (rest : List Nat) : Act Signal := do
  push (.idleScripts s rest label)
  yieldTo .hold

/-- The rounds of a scripted idle fiber after its scripts. -/
def idleRounds (s : SchedulerId) (label : String) : Nat → Act Signal
  | 0 => do
    report "idle_gave_up" label .null
    return .done .null
  | n + 1 => do
    if ← isStopping s then return .done .null
    push (.idleRounds s n label)
    yieldTo .hold

/-- Reports what a set of descriptors has without waiting, if it has anything. -/
def pollNow (epoll : Nat) (millis : Int) : Act (Option (List (Int × Event))) := do
  match ← kernel (·.harvest epoll) with
  | [] => return none
  | reports =>
    kernelDo (·.logWait millis reports.length)
    return some (← kernel (·.consume epoll reports))

/-- Waits until a set of descriptors has something to report, at most for a time. -/
def poll (epoll : Nat) (timeout : Option Duration) : Act Signal := do
  let millis := Kernel.timeoutMillis timeout
  allocate (((← get).kernel.epolls.get? epoll).map (·.maxEvents) |>.getD 0) 12
  match ← kernel (·.waitFault epoll) with
  | some n =>
    kernelDo (·.logWait millis (-n))
    return .polled (.error (.code n))
  | none =>
    match ← pollNow epoll millis with
    | some found => return .polled (.ok found)
    | none =>
      let pause := Duration.ofMillis millis.toNat
      if (← get).isConcurrent then
        waitFor (.epoll epoll millis (← deadline (if millis < 0 then none else some pause)))
      else
        modify fun w => { w with clock := w.clock + pause }
        kernelDo (·.logWait millis 0)
        return .polled (.ok [])

variable {α : Type}

/-- Works on the table of a reactor. -/
def onTable (r : ReactorId)
    (f : Reactor.Poller Kernel.State → Kernel.State → Reactor.FdTable Handler →
      Kernel.State × Reactor.FdTable Handler × α) : Act α := do
  let w ← get
  let reactor := (w.reactors.get? r).getD default
  let (kernel, table, a) := f (Reactor.epollPoller reactor.epoll) w.kernel reactor.table
  modify fun w =>
    { w with
      kernel := kernel
      reactors := w.reactors.modify r fun x => { x with table := table } }
  return a

/-- Queues the tasks of handlers that fired. -/
def fireAll (hs : List Handler) : Act Unit :=
  hs.forM fun h => do
    enqueue h.scheduler [⟨h.task, none⟩]
    release [.scheduler h.scheduler]

/-- Fires what a poller reported. -/
def dispatch (r : ReactorId) (found : List (Int × Event)) : Act Unit :=
  found.forM fun (fd, event) => do
    match ← onTable r fun poller k t => t.dispatch poller k fd event with
    | .ignored => pure ()
    | .refused left e => logError s!"re-arming fd {fd} with {left.render}: {e.render}"
    | .violated v => violate v
    | .fired hs => fireAll hs

/-- Works on a set of timers. -/
def onTimers (id : Nat) (f : Timers TimerBody → Timers TimerBody × α) : Act α := do
  let w ← get
  let set := (w.timerSets.get? id).getD ⟨.empty, .tally 0⟩
  let (timers, a) := f set.timers
  modify fun w =>
    { w with timerSets := w.timerSets.modify id fun s => { s with timers := timers } }
  return a

/-- The callbacks of a set of timers that are due. -/
def expire (id : Nat) : Act (List TimerBody) := do
  let now := (← get).clock
  match ← onTimers id (·.expire now) with
  | .overflow lost =>
    release (lost.flatMap TimerBody.handles)
    raise .instantOverflow
  | .due callbacks =>
    if !callbacks.isEmpty then log .trace s!"{callbacks.length} timer(s) expired"
    return callbacks

/-- A round of the idle fiber of a reactor up to its wait. -/
def idleReactor (s : SchedulerId) (r : ReactorId) : Act Signal := do
  if ← isStopping s then
    let name ← schedulerName s
    logDebug s!"reactor idle of {name} exiting"
    tickle s
    return .done .null
  let w ← get
  let reactor := (w.reactors.get? r).getD default
  let next ← onTimers reactor.timers (·.next w.clock)
  let timeout := Reactor.waitBound next reactor.config.maxWait
  push (.idlePolled s r)
  push (.idlePoll r timeout)
  poll reactor.epoll (some timeout)

/-- The end of a wait: an interrupted one is made again. -/
def idlePoll (r : ReactorId) (timeout : Duration) (res : Except OsError (List (Int × Event))) :
    Act Signal := do
  match res with
  | .ok found => return .polled (.ok found)
  | .error e =>
    if e = .interrupted then
      push (.idlePoll r timeout)
      poll ((← get).reactors.get? r |>.getD default).epoll (some timeout)
    else
      logError s!"epoll_wait failed: {e.render}"
      return .polled (.ok [])

/-- The rest of a round: due callbacks and fired handlers are queued. -/
def idlePolled (s : SchedulerId) (r : ReactorId) (found : List (Int × Event)) : Act Signal := do
  let callbacks ← expire ((← get).reactors.get? r |>.getD default).timers
  if !callbacks.isEmpty then
    log .trace s!"scheduling {callbacks.length} timer callback(s)"
    enqueue s (callbacks.map fun b => ⟨.callback (.timer b), none⟩)
  dispatch r found
  push (.idleReactor s r)
  yieldTo .hold

/-- Starts to idle in the way of a scheduler's hooks. -/
def startIdle (s : SchedulerId) : Act Signal := do
  if !(← get).schedulers.contains s then return .done .null
  let hooks := (← schedulerRecord s).hooks
  let held := hooks.handles ++ [.scheduler s]
  retainAll held
  push (.release held)
  match hooks with
  | .parking _ =>
    push (.idleParking s)
    return .done .null
  | .scripted idle _ _ label =>
    push (.idleScripts s idle label)
    return .done .null
  | .reactor r =>
    push (.idleReactor s r)
    allocate (((← get).reactors.get? r).getD default).config.maxEvents 8
    return .done .null

/-- Runs the callback of a timer. -/
def startTimer : TimerBody → Act Signal
  | .script block label => startBlock block label
  | .guarded object block label => do
    if (← get).objects.contains object then startBlock block label else return .done .null
  | .wake s f => do
    retain (.fiber f)
    enqueue s [⟨.fiber f, none⟩]
    return .done .null

/-- Runs the body of a fiber, which lets go of what it holds when it ends. -/
def startBody : Body → Act Signal
  | .script block label => startBlock block label
  | .timer b => do
    push (.release b.handles)
    startTimer b
  | .root s => do
    if !(← get).schedulers.contains s then return .done .null
    retain (.scheduler s)
    push (.release [.scheduler s])
    startWorker s 0
  | .idle s => startIdle s

end Fibers.Script
