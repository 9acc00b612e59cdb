import Fibers.Script.Perform.Scheduler
import Fibers.Text.Utf8

/-!
Actions on reactors and descriptors. A reactor comes with a scheduler that it owns, and both are
known by one name; letting the name of the reactor go stops the scheduler.
-/

namespace Fibers.Script

/-- The scheduler and the reactor that a name stands for. -/
def reactorNamed (name : String) : Act (SchedulerId × ReactorId) := do
  named (← get).names.reactors name

def reactorRecord (r : ReactorId) : Act ReactorRecord := do
  return ((← get).reactors.get? r).getD default

/-- Stops a scheduler and lets go of it and of its reactor. -/
def closeReactor (s : SchedulerId) (r : ReactorId) : Act Signal := do
  push (.release [.scheduler s, .reactor r])
  stop s

/-- Makes a reactor and its scheduler and starts them. -/
def newReactor (name : String) (spec : SchedulerConfig.Spec) (reactor : Option ReactorConfig.Spec) :
    Act Signal := do
  let config ← configOf spec
  let environment := (← get).environment
  let settings := match reactor with
    | some c => ReactorConfig.ofSpec environment c
    | none => ReactorConfig.ofEnvironment environment
  match ← makeReactor settings with
  | .error e => fail (.fault e)
  | .ok r =>
    retain (.reactor r)
    let made ←
      try makeScheduler config (.reactor r)
      catch e =>
        release [.reactor r]
        throw e
    match made with
    | .error e =>
      release [.reactor r]
      fail (.fault e)
    | .ok s =>
      push (.ioStarted name s r)
      start s

/-- A reactor has started and gets its name; one that had the name is closed. -/
def nameReactor (name : String) (s : SchedulerId) (r : ReactorId) : Act Signal := do
  retain (.scheduler s)
  nameScheduler name s
  let former := (← get).names.reactors.get? name
  modify fun w => { w with names := { w.names with reactors := w.names.reactors.put name (s, r) } }
  match former with
  | none => answer .ok
  | some (s, r) =>
    push (.answer .ok)
    closeReactor s r

/-- Lets the name of a reactor go. -/
def dropReactor (name : String) : Act Signal := do
  let w ← get
  match w.names.reactors.get? name with
  | none => answer .null
  | some (s, r) =>
    let _ ← dropScheduler name
    modify fun w => { w with names := { w.names with reactors := w.names.reactors.erase name } }
    push (.answer .null)
    closeReactor s r

/-- What can be seen of a reactor. -/
def World.describeReactor (w : World) (s : SchedulerId) (r : ReactorRecord) : Datum :=
  let timers := match w.timerSets.get? r.timers with
    | some t => t.timers.size
    | none => 0
  .record
    [("pending", .nat r.table.pending),
     ("timers", .nat timers),
     ("has_timer", .flag (0 < timers)),
     ("stopping", .flag (w.isStopping s)),
     ("queued", .nat ((w.schedulers.get? s).getD default).shared.queue.length),
     ("max_wait", .duration r.config.maxWait),
     ("max_events", .nat r.config.maxEvents),
     ("capacity", .nat r.config.capacity)]

/-- The task that an event queues: the one given or the running fiber. -/
def eventTask : Option (Task Body) → Act (Task Body)
  | some task => return task
  | none => do
    let w ← get
    if !w.inFiber then violate .handlerMissing
    let id ← currentOrMain
    let state := w.fibers.state id
    if state ≠ .exec then violate (.captureInState id.val state)
    retain (.fiber id)
    return .fiber id

/-- Breaks off with a violation after letting go of handles. -/
def violateReleasing {α : Type} (v : Violation) (held : List Handle) : Act α := do
  logError (announcement v)
  release held
  raise (.violation v)

/-- Arms an event of a descriptor; the handle of a given task is taken over. -/
def addEvent (s : SchedulerId) (r : ReactorId) (fd : Int) (event : Event)
    (given : Option (Task Body)) : Act Signal := do
  let held := (given.map taskHandles).getD []
  if !event.isSingle then violateReleasing (.eventNotSingle event) held
  match (← reactorRecord r).table.reserve fd with
  | .error e =>
    release held
    fail (.fault e)
  | .ok (table, grown) =>
    modify fun w =>
      { w with reactors := w.reactors.modify r fun x => { x with table := table } }
    match grown with
    | some size => logDebug s!"fd table grown to {size} entries for fd {fd}"
    | none => pure ()
    let task ← eventTask given
    let target := (← currentScheduler).getD s
    let handler : Handler := ⟨target, task⟩
    match ← onTable r fun poller k t => t.arm poller k fd event handler with
    | .done =>
      retain (.scheduler target)
      answer .ok
    | .refused op interest e =>
      logError s!"epoll_ctl({op.render}) fd {fd} {interest.render}: {e.render}"
      release (taskHandles task)
      fail (.fault (.register fd op e))
    | .violated v => violateReleasing v (taskHandles task)

/-- Finishes an attempt to disarm events. -/
def disarmed (what : String) (finish : List Handler → Act Unit) :
    Reactor.FdTable.Disarmed Handler → Act Signal
  | .absent => answer (.flag false)
  | .refused e => do
    logError s!"{what}: {e.render}"
    answer (.flag false)
  | .violated v => violate v
  | .done handlers => do
    finish handlers
    answer (.flag true)

/-- Drops handlers without running them. -/
def dropHandlers (hs : List Handler) : Act Unit := release (hs.flatMap Handler.handles)

/-- A number of bytes, or minus one if there is none. -/
def countOrMinus : Option Nat → Datum
  | some n => .nat n
  | none => .number (-1)

/-- The text of bytes, or minus one if there are none. -/
def textOrMinus : Option (List UInt8) → Datum
  | some bytes => .text (Text.ofBytes bytes)
  | none => .number (-1)

def performReactor (label : String) : ReactorAction → Act Signal
  | .new name config reactor => newReactor name config reactor
  | .drop name => dropReactor name
  | .inspect name => do
    let (s, r) ← reactorNamed name
    answer ((← get).describeReactor s (← reactorRecord r))
  | .pending name => do
    let (_, r) ← reactorNamed name
    answer (.nat (← reactorRecord r).table.pending)
  | .add name fd event spec => do
    let (s, r) ← reactorNamed name
    let task ← match spec with
      | some spec => some <$> taskOf label spec
      | none => pure none
    addEvent s r fd event task
  | .on name fd event body => do
    let (s, r) ← reactorNamed name
    addEvent s r fd event (some (.callback (.script (← blockOf body) label)))
  | .delete name fd event => do
    let (_, r) ← reactorNamed name
    let res ← onTable r fun poller k t => t.delete poller k fd event
    disarmed s!"del_event fd {fd} {event.render}" dropHandlers res
  | .cancel name fd event => do
    let (_, r) ← reactorNamed name
    let res ← onTable r fun poller k t => t.cancel poller k fd event
    disarmed s!"cancel_event fd {fd} {event.render}" fireAll res
  | .cancelAll name fd => do
    let (_, r) ← reactorNamed name
    let res ← onTable r fun poller k t => t.cancelAll poller k fd
    disarmed s!"cancel_all fd {fd}" fireAll res
  | .pipe reader writer => do
    kernelDo (·.pipe reader writer)
    answer .null
  | .socketPair a b => do
    kernelDo (·.socketPair a b)
    answer .null
  | .file fd => do
    kernelDo (·.nullFile fd)
    answer .null
  | .duplicate fd new => do
    kernelDo (·.duplicate fd new)
    answer .null
  | .write fd text => do answer (countOrMinus (← kernel (·.write fd text.toUTF8.toList)))
  | .read fd n => do answer (textOrMinus (← kernel (·.read fd n)))
  | .close fd => do answer (.number (if ← kernel (·.close fd) then 0 else -1))
  | .fill fd => do
    kernelDo (·.fill fd)
    answer .null
  | .drain fd => do
    kernelDo (·.drain fd)
    answer .null
  | .injectWait n => do
    kernelDo fun k => { k with waitFaults := k.waitFaults ++ [n] }
    answer .null
  | .inject call n => do
    kernelDo (·.inject call n)
    answer .null

end Fibers.Script
