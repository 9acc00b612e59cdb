import Fibers.Script.Act

/-!
Making fibers and switching between stacks. The frames of the stack that runs are with its thread. A
switch puts them away under the fiber that is left and takes out those of the fiber that is entered;
what the entered stack is told depends on whether it waits in a resume.
-/

namespace Fibers.Script

/-- The running fiber; a thread that uses fibers for the first time gets its main one. -/
def currentOrMain : Act FiberId := do
  let w ← get
  let (fibers, id) := w.fibers.currentOrMain w.thread.current
  modify fun w => { w with fibers := fibers }
  updateThread fun t =>
    { t with current := some id, main := if t.current.isNone then some id else t.main }
  return id

/-- Whether the thread runs on the stack of a fiber other than a main one. -/
def World.inFiber (w : World) : Bool := w.fibers.inFiber w.thread.current

/-- Makes a stack of at least `size` bytes. -/
def mapStack (size : Nat) : Act (Except SchedFault Nat) := do
  match ← kernel (·.mapStack size) with
  | .ok usable => return .ok usable
  | .error e =>
    logError s!"fiber stack allocation of {size} bytes failed: {e.render}"
    return .error (.stackAlloc size e)

/-- Makes a fiber with one handle, which the caller holds. A body that finds no stack is dropped. -/
def makeFiber (body : Body) (size : Nat) (inScheduler : Bool) :
    Act (Except SchedFault FiberId) := do
  match ← mapStack size with
  | .error e =>
    release body.handles
    return .error e
  | .ok usable =>
    let (fibers, id) := (← get).fibers.create body usable inScheduler
    modify fun w => { w with fibers := fibers, saved := w.saved.put id [.fiberStart id] }
    logDebug s!"fiber {id.render} created"
    return .ok id

/-- Changes stacks as a transfer of control says. A thread whose own stack is left for the first
time has got its main fiber. -/
def follow (t : FiberTable.Transfer Body) : Act Signal := do
  let w ← get
  let frames := (w.saved.get? t.target).getD []
  modify fun w =>
    { w with
      fibers := t.fibers
      saved := (w.saved.put t.source w.thread.frames).erase t.target }
  updateThread fun thread =>
    { thread with
      frames := frames
      main := if thread.current.isNone then some t.source else thread.main
      current := some t.target }
  return match t.told with
    | some s => .left s
    | none => .done .null

/-- Follows a transfer of control, unless it would violate a rule. -/
def followOr : Except Violation (FiberTable.Transfer Body) → Act Signal
  | .error v => violate v
  | .ok t => follow t

/-- Resumes a fiber. -/
def resume (target : FiberId) : Act Signal := do
  let w ← get
  followOr (w.fibers.resume w.thread.current target w.currentScheduler.isSome)

/-- Suspends the running fiber. -/
def yieldTo (s : FiberState) : Act Signal := do
  let w ← get
  followOr (w.fibers.yield w.thread.current s)

/-- Leaves a fiber that has ended. A fiber that nobody waits for cannot be left. -/
def finish (id : FiberId) (s : FiberState) : Act Signal := do
  push .fiberEnd
  match (← get).fibers.handBack id s with
  | .ok t => follow t
  | .error v =>
    logError (announcement v)
    abort

/-- Installs a new body on the stack of a fiber that has ended or not begun. -/
def resetFiber (id : FiberId) (body : Body) : Act Unit := do
  let w ← get
  match w.fibers.reset id body with
  | .error v =>
    logError (announcement v)
    release body.handles
    raise (.violation v)
  | .ok fibers =>
    let former := (w.fibers.get? id).bind (·.entry)
    modify fun w => { w with fibers := fibers, saved := w.saved.put id [.fiberStart id] }
    release ((former.map Body.handles).getD [])

/-- Runs a block. -/
def startBlock (block : Nat) (label : String) : Act Signal := do
  push (.steps ((← get).program.block block) label)
  return .done .null

/-- The block that an action names. -/
def blockOf : BlockRef → Act Nat
  | .block i => pure i
  | .unknown name => fail (.missing name)

/-- The body of a fiber has ended with a panic. A violation ends the program. -/
def finishPanicked (id : FiberId) (p : Panic) : Act Signal := do
  match p with
  | .violation v =>
    logError (s!"fatal in fiber {id.render}: " ++ announcement v)
    abort
  | p =>
    logError s!"fiber {id.render} panicked: {p.message}"
    finish id .except

end Fibers.Script
