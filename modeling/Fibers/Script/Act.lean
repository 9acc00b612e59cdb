import Fibers.Script.World

/-!
The effects that actions are made of. An action changes the world and may stop early: with a failure
that becomes its answer, or with a panic that looks for someone to catch it. Here are the diagnostic
log, the trace, violations, and the counting of handles, by which fibers, schedulers and reactors
live as long as someone holds them.
-/

namespace Fibers.Script

/-- Why an action stops before its end. -/
inductive Stop where
  | failure (f : Failure)
  | panic (p : Panic)
  deriving Inhabited

abbrev Act := ExceptT Stop (StateM World)

variable {α : Type}

def fail (f : Failure) : Act α := throw (.failure f)

def raise (p : Panic) : Act α := throw (.panic p)

/-- What a name stands for. -/
def named (t : Table String α) (name : String) : Act α :=
  match t.get? name with
  | some a => pure a
  | none => fail (.missing name)

/-- Whether identities of fibers depend on the order in which threads run. -/
def World.isConcurrent (w : World) : Bool := w.timing == .flowing

def World.thread (w : World) : Thread := (w.threads.get? w.running).getD default

def thread : Act Thread := do return (← get).thread

def updateThread (f : Thread → Thread) : Act Unit :=
  modify fun w => { w with threads := w.threads.modify w.running f }

/-- Puts a frame on the stack that runs. -/
def push (f : Frame) : Act Unit := updateThread fun t => { t with frames := f :: t.frames }

/-- A new identity. -/
def freshId : Act Nat := do
  let id := (← get).lastId + 1
  modify fun w => { w with lastId := id }
  return id

/-- The time since the start. -/
def World.elapsed (w : World) : Duration := Instant.since w.clock startOfClock

/-- The time since the start as an answer; where it is not reproducible, nothing is answered. -/
def clockAnswer : Act Datum := do
  let w ← get
  return if w.isConcurrent then .null else .nat w.elapsed

/-- Runs a part of the kernel. -/
def kernel (f : Kernel.State → Kernel.State × α) : Act α := do
  let (k, a) := f (← get).kernel
  modify fun w => { w with kernel := k }
  return a

def kernelDo (f : Kernel.State → Kernel.State) : Act Unit :=
  modify fun w => { w with kernel := f w.kernel }

/-- The worker on whose fiber a thread runs. -/
def World.place (w : World) : Option Nat :=
  let t := w.thread
  match t.current.bind w.fibers.get? with
  | some r => if r.isMain then none else t.worker
  | none => none

def happen (e : Happening) : Act Unit :=
  modify fun w => { w with trace := ⟨w.place, e⟩ :: w.trace }

/-- Who acts: the fiber that runs, or the label of its script. -/
def World.actor (w : World) (label : String) : String :=
  if w.isConcurrent then label
  else
    match w.thread.current with
    | some id => id.render
    | none => FiberId.none.render

/-- Enters a finished action into the trace. -/
def report (verb label : String) (result : Datum) : Act Unit := do
  happen (.action ((← get).actor label) verb result)

/-- Reads the settings of the log, if that is still to be done. -/
def initLog : Act Unit :=
  modify fun w => { w with settings := w.settings.init w.environment }

/-- What a sink that tells lines from pieces makes of one of them. -/
def SinkSpec.kind (kind : String) : SinkSpec → String
  | .plain => "plain"
  | _ => kind

/-- Writes to the error output, which asks whether to flush. -/
def writeError (text : String) : Act Unit := do
  initLog
  modify fun w => { w with stderr := text :: w.stderr }

/-- Sends a line to the sink. -/
def sendLine (l : Log.Level) (text : String) : Act Unit := do
  match (← get).sink with
  | none | some .stderr => writeError (text ++ "\n")
  | some s => happen (.logged (s.kind "line") l.name text)

/-- Sends a piece of a line to the sink. -/
def sendPiece (text : String) : Act Unit := do
  match (← get).sink with
  | none | some .stderr => writeError text
  | some s => happen (.logged (s.kind "raw") Log.Level.off.name text)

def World.context (w : World) : Log.Context :=
  if w.contextual then ⟨w.thread.worker, w.thread.current.getD FiberId.none⟩ else .bare

/-- Writes a line of a level, if the threshold lets it through. -/
def log (l : Log.Level) (text : String) : Act Unit := do
  initLog
  let w ← get
  if w.settings.shows l then sendLine l (Log.line l w.context text)

def logError (text : String) : Act Unit := log .error text

def logDebug (text : String) : Act Unit := log .debug text

/-- What follows the first colon and space of a line, or the whole line if there is none. -/
def afterColon : List Char → Option (List Char)
  | ':' :: ' ' :: rest => some rest
  | _ :: rest => afterColon rest
  | [] => none

/-- What the log says of a violation: the first line of its message, from the first colon on. -/
def announcement (v : Violation) : String :=
  let line := v.message.toList.takeWhile (· != '\n')
  "contract violation: " ++ String.ofList ((afterColon line).getD line)

/-- Reports a violation and breaks off. -/
def violate (v : Violation) : Act α := do
  logError (announcement v)
  raise (.violation v)

/-- The program ends at once. -/
def abort : Act α := do
  modify fun w => { w with aborted := true }
  raise .silent

/-- The most bytes that a row of items can have. -/
def maxRowBytes : Nat := Nat.pow 2 63 - 1

/-- Rows of this many bytes and more cannot be had. -/
def rowLimit : Nat := Nat.pow 2 47

/-- Makes room for a row of `count` items of `size` bytes. -/
def allocate (count size : Nat) : Act Unit := do
  if maxRowBytes < count * size then raise .capacityOverflow
  else if rowLimit ≤ count * size then abort

/-- One handle more. -/
def retain (h : Handle) : Act Unit :=
  modify fun w =>
    match h with
    | .fiber id => { w with fibers := w.fibers.retain id }
    | .scheduler id =>
      { w with schedulers := w.schedulers.modify id fun r => { r with handles := r.handles + 1 } }
    | .reactor id =>
      { w with reactors := w.reactors.modify id fun r => { r with handles := r.handles + 1 } }

def retainAll (hs : List Handle) : Act Unit := hs.forM retain

/-- The handles that the hooks of a scheduler hold. -/
def Hooks.handles : Hooks → List Handle
  | .reactor id => [.reactor id]
  | _ => []

/-- The handles that a scheduler holds. -/
def SchedulerRecord.holds (r : SchedulerRecord) : List Handle :=
  r.hooks.handles ++ r.shared.queue.flatMap (fun e => taskHandles e.task) ++
    (r.root.map Handle.fiber).toList

/-- Unmaps the stack of a fiber. -/
def unmapStack : Act Unit := do
  match ← kernel Kernel.State.unmapStack with
  | some e => logError s!"munmap of fiber stack <addr> failed: {e.render}"
  | none => pure ()

/-- A fiber ends with its last handle; answers the handles it held. The frames of a suspended fiber
are lost with whatever they hold. -/
def endFiber (id : FiberId) (r : FiberRecord Body) : Act (List Handle) := do
  modify fun w => { w with fibers := { w.fibers with live := w.fibers.live - 1 } }
  if r.leaks then
    log .warn s!"fiber {id.render} dropped in state {r.state.render}; its stack frames are leaked"
  if !r.isMain then unmapStack
  modify fun w =>
    { w with
      fibers := { w.fibers with records := w.fibers.records.erase id }
      saved := w.saved.erase id }
  return (r.entry.map Body.handles).getD []

/-- A scheduler ends with its last handle; answers the handles it held. -/
def endScheduler (id : SchedulerId) (r : SchedulerRecord) : Act (List Handle) := do
  modify fun w => { w with schedulers := w.schedulers.erase id }
  if r.shared.started && !r.shared.stopping then
    log .warn s!"scheduler {r.config.name} dropped without stop()"
  logDebug s!"scheduler {r.config.name} dropped"
  return r.holds

/-- A set of timers ends; answers the handles it held. -/
def endTimers (id : Nat) : Act (List Handle) := do
  let w ← get
  modify fun w => { w with timerSets := w.timerSets.erase id }
  return match w.timerSets.get? id with
    | some s => s.timers.slots.entries.flatMap fun e => e.2.callback.handles
    | none => []

/-- A reactor ends with its last handle; answers the handles it held. -/
def endReactor (id : ReactorId) (r : ReactorRecord) : Act (List Handle) := do
  if 0 < r.table.pending then
    logDebug s!"reactor dropped with {r.table.pending} pending registration(s)"
  modify fun w =>
    { w with
      reactors := w.reactors.erase id
      kernel := { w.kernel with epolls := w.kernel.epolls.erase r.epoll } }
  let held ← endTimers r.timers
  return r.table.handlers.flatMap Handler.handles ++ held

/-- One handle less; answers the handles that are let go in turn. -/
def releaseOne (h : Handle) : Act (List Handle) := do
  let w ← get
  match h with
  | .fiber id =>
    match w.fibers.get? id with
    | none => return []
    | some r =>
      if 1 < r.handles then
        modify fun w => { w with fibers := w.fibers.release id }
        return []
      else endFiber id r
  | .scheduler id =>
    match w.schedulers.get? id with
    | none => return []
    | some r =>
      if 1 < r.handles then
        modify fun w =>
          { w with
            schedulers := w.schedulers.modify id fun r => { r with handles := r.handles - 1 } }
        return []
      else endScheduler id r
  | .reactor id =>
    match w.reactors.get? id with
    | none => return []
    | some r =>
      if 1 < r.handles then
        modify fun w =>
          { w with reactors := w.reactors.modify id fun r => { r with handles := r.handles - 1 } }
        return []
      else endReactor id r

/-- Lets go of handles one after the other, of what each held before the next one. -/
def releaseUpTo : Nat → List Handle → Act Unit
  | _, [] => pure ()
  | 0, _ => pure ()
  | n + 1, h :: hs => do
    let held ← releaseOne h
    releaseUpTo n (held ++ hs)

/-- The number of handles in the world. Each step of a release uses one of them up. -/
def World.handleCount (w : World) : Nat :=
  let ofFibers := w.fibers.records.entries.foldl (fun n e => n + e.2.handles) 0
  let ofSchedulers := w.schedulers.entries.foldl (fun n e => n + e.2.handles) 0
  w.reactors.entries.foldl (fun n e => n + e.2.handles) (ofFibers + ofSchedulers)

def release (hs : List Handle) : Act Unit := do
  releaseUpTo ((← get).handleCount + hs.length) hs

/-- The scheduler that the thread serves, if it is alive. -/
def World.currentScheduler (w : World) : Option SchedulerId :=
  match w.thread.scheduler with
  | some id => if w.schedulers.contains id then some id else none
  | none => none

def currentScheduler : Act (Option SchedulerId) := do return (← get).currentScheduler

def schedulerRecord (id : SchedulerId) : Act SchedulerRecord := do
  return ((← get).schedulers.get? id).getD default

def updateScheduler (id : SchedulerId) (f : SchedulerRecord → SchedulerRecord) : Act Unit :=
  modify fun w => { w with schedulers := w.schedulers.modify id f }

def schedulerName (id : SchedulerId) : Act String := do return (← schedulerRecord id).config.name

/-- The reactor behind a scheduler. -/
def World.reactorOf (w : World) (id : SchedulerId) : Option ReactorId :=
  match w.schedulers.get? id with
  | some r =>
    match r.hooks with
    | .reactor reactor => some reactor
    | _ => none
  | none => none

end Fibers.Script
