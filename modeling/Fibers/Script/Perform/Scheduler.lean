import Fibers.Script.Lifecycle
import Fibers.Script.Perform.Fiber

/-!
Actions on schedulers and threads.
-/

namespace Fibers.Script

/-- The scheduler that a name stands for. -/
def schedulerNamed (name : String) : Act SchedulerId := do named (← get).names.schedulers name

/-- Gives a name to a scheduler, whose handle the name takes over from the caller. -/
def nameScheduler (name : String) (id : SchedulerId) : Act Unit := do
  let former := (← get).names.schedulers.get? name
  modify fun w => { w with names := { w.names with schedulers := w.names.schedulers.put name id } }
  release (former.map Handle.scheduler).toList

/-- Keeps a scheduler alive while what follows runs on this stack. -/
def holdScheduler (id : SchedulerId) : Act Unit := do
  retain (.scheduler id)
  push (.release [.scheduler id])

/-- The hooks that an action names. -/
def hooksOf (label : String) : Option HooksSpec → Act Hooks
  | some (.scripted idle stopping) => do
    return .scripted (← idle.mapM blockOf) stopping 0 label
  | _ => return .parking .fresh

/-- The settings that an action names. -/
def configOf (spec : SchedulerConfig.Spec) : Act SchedulerConfig := do
  return SchedulerConfig.ofSpec (← get).environment spec

def newScheduler (label name : String) (spec : SchedulerConfig.Spec) (hooks : Option HooksSpec) :
    Act Signal := do
  let hooks ← hooksOf label hooks
  match ← makeScheduler (← configOf spec) hooks with
  | .error e => fail (.fault e)
  | .ok id =>
    nameScheduler name id
    answer .ok

/-- Lets a name go; answers whether it stood for a scheduler. -/
def dropScheduler (name : String) : Act Datum := do
  let w ← get
  match w.names.schedulers.get? name with
  | none => return .flag false
  | some id =>
    modify fun w => { w with names := { w.names with schedulers := w.names.schedulers.erase name } }
    release [.scheduler id]
    return .flag true

/-- The number of queued entries as an answer; where it is not reproducible, nothing is answered. -/
def queuedAnswer (s : SchedulerId) : Act Signal := do
  let n := (← schedulerRecord s).shared.queue.length
  answer (if (← get).isConcurrent then .null else .nat n)

/-- Queues a task for a worker. -/
def scheduleOn (s : SchedulerId) (task : Task Body) (worker : Nat) : Act Unit := do
  let c := (← schedulerRecord s).config
  if c.threads ≤ worker then
    let v := Violation.workerOutOfRange worker c.name c.threads
    logError (announcement v)
    release (taskHandles task)
    raise (.violation v)
  enqueue s [⟨task, some worker⟩]

/-- The first line of the text of a scheduler. -/
def SchedulerRecord.headline (r : SchedulerRecord) : String :=
  s!"[Scheduler name={r.config.name} size={r.config.threads} active_count={r.shared.active} " ++
    s!"idle_count={r.shared.idle} stopping={r.shared.stopping} ]"

/-- The first line of a scheduler's text and the number of threads that the second one lists. -/
def SchedulerRecord.display (r : SchedulerRecord) : Datum :=
  .list [.text r.headline, .nat r.threadIds]

/-- The text of a scheduler inside a record. -/
def SchedulerRecord.describe (r : SchedulerRecord) : String :=
  "Scheduler \x7b name: " ++ Text.quoted r.config.name ++
    s!", threads: {r.config.threads}, use_caller: {r.config.useCaller}" ++
    s!", active: {r.shared.active}, idle: {r.shared.idle} \x7d"

/-- What can be seen of a scheduler. -/
def World.describeScheduler (w : World) (s : SchedulerId) (r : SchedulerRecord) : Datum :=
  .record
    [("name", .text r.config.name),
     ("workers", .nat r.config.threads),
     ("queued", .nat r.shared.queue.length),
     ("active", .nat r.shared.active),
     ("idle", .nat r.shared.idle),
     ("has_idle", .flag (0 < r.shared.idle)),
     ("stopping", .flag (w.isStopping s)),
     ("base_stopping", .flag r.shared.isDone),
     ("stack", .nat r.config.stackSize),
     ("display", r.display),
     ("debug", .text r.describe)]

def World.schedulerName (w : World) (s : SchedulerId) : Datum :=
  .textOrNull ((w.schedulers.get? s).map fun r => r.config.name)

/-- The name of the scheduler that the thread serves. -/
def World.currentName (w : World) : Datum :=
  match w.currentScheduler with
  | some s => w.schedulerName s
  | none => .null

/-- The index that no worker has and that stands for no index. -/
def noWorker : Nat := Nat.pow 2 64 - 1

/-- Runs a block on a scheduler and goes back. -/
def switcher (target : Option SchedulerId) (block : Nat) (label : String) : Act Signal := do
  let caller ← currentScheduler
  retainAll (caller.map Handle.scheduler).toList
  push (.switched caller block label)
  match target with
  | some s => switchTo s none
  | none => return .done .null

/-- Goes back to the scheduler that a switcher came from. -/
def switchBack (caller : Option SchedulerId) (outcome : Signal) : Act Signal := do
  match caller with
  | none => return outcome
  | some s =>
    push (.switchedBack s outcome)
    switchTo s none

def performScheduler (label : String) : SchedulerAction → Act Signal
  | .new name config hooks => newScheduler label name config hooks
  | .drop name => do answer (← dropScheduler name)
  | .start name => do
    let s ← schedulerNamed name
    holdScheduler s
    start s
  | .stop name => do
    let s ← schedulerNamed name
    push .answerClock
    holdScheduler s
    stop s
  | .schedule name spec => do
    let s ← schedulerNamed name
    let task ← taskOf label spec
    enqueue s [⟨task, none⟩]
    queuedAnswer s
  | .scheduleOn name spec worker => do
    let s ← schedulerNamed name
    let task ← taskOf label spec
    scheduleOn s task worker
    queuedAnswer s
  | .scheduleAll name specs => do
    let s ← schedulerNamed name
    let tasks ← tasksOf label specs
    enqueue s (tasks.map fun t => ⟨t, none⟩)
    queuedAnswer s
  | .tickle name => do
    let s ← schedulerNamed name
    tickle s
    answer .null
  | .tickles name => do
    let s ← schedulerNamed name
    match (← schedulerRecord s).hooks with
    | .scripted _ _ n _ => answer (.nat n)
    | _ => answer .null
  | .inspect name => do
    let s ← schedulerNamed name
    answer ((← get).describeScheduler s (← schedulerRecord s))
  | .display name => do
    let s ← schedulerNamed name
    answer (← schedulerRecord s).display
  | .current => do answer (← get).currentName
  | .workerId => do answer (.natOrNull (← thread).worker)
  | .currentIo => do
    let w ← get
    match w.currentScheduler with
    | some s => answer (if (w.reactorOf s).isSome then w.schedulerName s else .null)
    | none => answer .null
  | .setWorker n => do
    let worker := if n = some noWorker then none else n
    updateThread fun t => { t with worker := worker }
    answer (.natOrNull worker)
  | .setCurrent name => do
    let s ← match name with
      | some name => some <$> schedulerNamed name
      | none => pure none
    updateThread fun t => { t with scheduler := s }
    answer (.flag (← get).currentScheduler.isSome)
  | .switchTo name worker => do
    let s ← schedulerNamed name
    push .answerWorker
    holdScheduler s
    switchTo s worker
  | .switcher name body => do
    let s ← match name with
      | some name => some <$> schedulerNamed name
      | none => pure none
    let block ← blockOf body
    push .answerScheduler
    s.forM holdScheduler
    switcher s block label
  | .onThread body name => do
    let block ← blockOf body
    let s ← match name with
      | some name => some <$> schedulerNamed name
      | none => pure none
    let steps := (← get).program.block block
    joinThread (← startThread [.steps steps label] s)
  | .setFlag name => do
    modify fun w => { w with flags := name :: w.flags }
    answer .null
  | .waitFlag name => do
    push (.answer (.flag true))
    waitFor (.flag name)

end Fibers.Script
