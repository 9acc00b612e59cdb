import Fibers.Script.Sleep

/-!
Actions on fibers, and the tasks that actions name.
-/

namespace Fibers.Script

/-- The bytes of a fiber's stack unless an action asks for something else. -/
def standardStack : Nat := SchedulerConfig.standard.stackSize

/-- The fiber that a name stands for. -/
def fiberNamed (name : String) : Act FiberId := do named (← get).names.fibers name

/-- Gives a name to a fiber, whose handle the name takes over from the caller. -/
def nameFiber (name : String) (id : FiberId) : Act Unit := do
  let former := (← get).names.fibers.get? name
  modify fun w => { w with names := { w.names with fibers := w.names.fibers.put name id } }
  release (former.map Handle.fiber).toList

/-- The task that an action names; the caller holds its handle. -/
def taskOf (label : String) : TaskSpec → Act (Task Body)
  | .fiber name => do
    let id ← fiberNamed name
    retain (.fiber id)
    return .fiber id
  | .self => do
    let id ← currentOrMain
    retain (.fiber id)
    return .fiber id
  | .callback body own => do
    return .callback (.script (← blockOf body) (own.getD label))

/-- The tasks that an action names; the caller holds their handles. -/
def tasksOf (label : String) : List TaskSpec → Act (List (Task Body))
  | [] => return []
  | spec :: specs => do
    let task ← taskOf label spec
    try
      return task :: (← tasksOf label specs)
    catch e =>
      release (taskHandles task)
      throw e

/-- Makes a fiber under a name. -/
def spawnFiber (name : String) (spec : SpawnSpec) : Act Signal := do
  let body : Body := .script (← blockOf spec.body) (spec.label.getD name)
  let made ←
    if spec.plain then makeFiber body standardStack true
    else makeFiber body (spec.stack.getD standardStack) (spec.inScheduler.getD true)
  match made with
  | .error e => fail (.fault e)
  | .ok id =>
    nameFiber name id
    return .done (.nat id.val)

/-- What can be seen of a fiber. -/
def describeFiber (id : FiberId) (r : FiberRecord Body) : Datum :=
  .record
    [("id", .nat id.val),
     ("state", .text r.state.render),
     ("main", .flag r.isMain),
     ("stack", .nat r.stackSize),
     ("in_sched", .flag r.inScheduler),
     ("debug", .text (r.describe id)),
     ("task", .text (Task.fiber (β := Body) id).describe)]

/-- The text of the settings with which a fiber is made. -/
def describeBuilder (stack : Option Nat) (inScheduler : Option Bool) : String :=
  s!"FiberBuilder \x7b stack_size: {stack.getD standardStack}, " ++
    s!"run_in_scheduler: {inScheduler.getD true} \x7d"

/-- Lets a name go; answers whether it held the last handle. -/
def dropFiber (name : String) : Act Datum := do
  let w ← get
  match w.names.fibers.get? name with
  | none => return .null
  | some id =>
    let last := match w.fibers.get? id with
      | some r => r.handles == 1
      | none => true
    modify fun w => { w with names := { w.names with fibers := w.names.fibers.erase name } }
    release [.fiber id]
    return .flag last

def answer (d : Datum) : Act Signal := return .done d

def performFiber (label : String) : FiberAction → Act Signal
  | .spawn name spec => spawnFiber name spec
  | .resume name => do
    let id ← fiberNamed name
    retain (.fiber id)
    push (.release [.fiber id])
    resume id
  | .reset name body => do
    let id ← fiberNamed name
    resetFiber id (.script (← blockOf body) label)
    answer (.text ((← get).fibers.state id).render)
  | .state name => do
    let id ← fiberNamed name
    answer (.text ((← get).fibers.state id).render)
  | .inspect name => do
    let id ← fiberNamed name
    answer (describeFiber id (((← get).fibers.get? id).getD default))
  | .describeBuilder stack inScheduler => answer (.text (describeBuilder stack inScheduler))
  | .describeTask spec => do
    let task ← taskOf label spec
    release (taskHandles task)
    answer (.text task.describe)
  | .drop name => do answer (← dropFiber name)
  | .keep name => do
    let id ← currentOrMain
    retain (.fiber id)
    nameFiber name id
    answer .null
  | .current => do
    let id ← currentOrMain
    let r := ((← get).fibers.get? id).getD default
    answer (.list [.nat id.val, .text r.state.render, .flag r.isMain, .nat r.stackSize])
  | .currentId => do answer (.nat ((← thread).current.getD FiberId.none).val)
  | .inFiber => do answer (.flag (← get).inFiber)
  | .total => do answer (.nat (← get).fibers.live)
  | .yieldHold => yieldTo .hold
  | .yieldReady => yieldTo .ready
  | .yieldNow => yieldNow
  | .sleep d => do
    push .answerClock
    sleep d
  | .log value => answer value
  | .iterate n body => do
    push (.iterate n (← blockOf body) label)
    answer .null

end Fibers.Script
