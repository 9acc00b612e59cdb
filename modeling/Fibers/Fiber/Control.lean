import Fibers.Fault
import Fibers.FiberId
import Fibers.Table

/-!
The record of every fiber and the transfer of control between fibers. A fiber that resumes another
is `hold` until control comes back to it. A fiber that yields or ends does not change its own state:
it notes the state it asks for and hands control to its resumer, where the pending resume completes
and publishes the state that was asked for.

`arrive` says what happens to the fiber at which control arrives. If it is inside a resume, that
resume completes, whoever it was that handed control over. `resume`, `yield`, `finish` and `reset`
are the operations; one that would violate a rule answers the violation and changes nothing.
-/

namespace Fibers

/-- What is known of a fiber whose body has type `β`. -/
structure FiberRecord (β : Type) where
  state : FiberState
  /-- The state asked for by the last yield or end. -/
  yielded : FiberState
  /-- Usable bytes of the fiber's own stack; a thread's main fiber has none. -/
  stack : Option Nat
  /-- Whether only a thread with a scheduler may resume it. -/
  inScheduler : Bool
  /-- The body to run at the next entry. -/
  entry : Option β
  /-- The fiber that resumed it. -/
  resumer : Option FiberId
  /-- The fiber whose resume it is inside of. -/
  awaiting : Option FiberId
  /-- The number of handles. -/
  handles : Nat
  deriving Inhabited

namespace FiberRecord

variable {β : Type}

def isMain (r : FiberRecord β) : Bool := r.stack.isNone

def stackSize (r : FiberRecord β) : Nat := r.stack.getD 0

/-- Whether a fiber that loses its last handle in this record loses live frames. -/
def leaks (r : FiberRecord β) : Bool := !r.isMain && !r.state.isResettable

/-- The text of a fiber's record. -/
def describe (id : FiberId) (r : FiberRecord β) : String :=
  s!"Fiber \x7b id: {id.describe}, state: {r.state.describe}, stack_size: {r.stackSize}, " ++
    s!"run_in_scheduler: {r.inScheduler} \x7d"

end FiberRecord

/-- All fibers. -/
structure FiberTable (β : Type) where
  records : Table FiberId (FiberRecord β)
  lastId : Nat
  /-- The number of fibers that still have a handle. -/
  live : Nat
  deriving Inhabited

namespace FiberTable

variable {β : Type}

def empty : FiberTable β := ⟨.empty, 0, 0⟩

def get? (t : FiberTable β) (id : FiberId) : Option (FiberRecord β) := t.records.get? id

def modify (t : FiberTable β) (id : FiberId) (f : FiberRecord β → FiberRecord β) : FiberTable β :=
  { t with records := t.records.modify id f }

/-- The state of a fiber; one that does not exist counts as failed. -/
def state (t : FiberTable β) (id : FiberId) : FiberState :=
  match t.get? id with
  | some r => r.state
  | none => .except

/-- Adds a record under the next identity. -/
def add (t : FiberTable β) (r : FiberRecord β) : FiberTable β × FiberId :=
  let id : FiberId := ⟨t.lastId + 1⟩
  ({ records := t.records.put id r, lastId := t.lastId + 1, live := t.live + 1 }, id)

/-- Makes a fiber with one handle. -/
def create (t : FiberTable β) (entry : β) (stack : Nat) (inScheduler : Bool) :
    FiberTable β × FiberId :=
  t.add ⟨.init, .init, some stack, inScheduler, some entry, none, none, 1⟩

/-- Makes the fiber that stands for a thread's own stack. -/
def createMain (t : FiberTable β) : FiberTable β × FiberId :=
  t.add ⟨.exec, .exec, none, false, none, none, none, 1⟩

/-- One handle of a fiber more. -/
def retain (t : FiberTable β) (id : FiberId) : FiberTable β :=
  t.modify id fun r => { r with handles := r.handles + 1 }

/-- One handle of a fiber less, of several. -/
def release (t : FiberTable β) (id : FiberId) : FiberTable β :=
  t.modify id fun r => { r with handles := r.handles - 1 }

/-- The fiber that a thread runs; a thread that uses fibers for the first time gets its main one. -/
def currentOrMain (t : FiberTable β) (current : Option FiberId) : FiberTable β × FiberId :=
  match current with
  | some id => (t, id)
  | none => t.createMain

/-- Whether a thread runs on the stack of a fiber other than its main one. -/
def inFiber (t : FiberTable β) (current : Option FiberId) : Bool :=
  match current.bind t.get? with
  | some r => !r.isMain
  | none => false

/-- Control leaves `caller`, which resumes `target`. -/
def depart (t : FiberTable β) (caller target : FiberId) : FiberTable β :=
  let t := t.modify caller fun r => { r with state := .hold, awaiting := some target }
  t.modify target fun r => { r with state := .exec, resumer := some caller }

/-- Control arrives at a fiber. If the fiber is inside a resume, the resume completes: the fiber
runs again, and the state that the awaited fiber last asked for is published and answered. -/
def arrive (t : FiberTable β) (id : FiberId) : FiberTable β × Option FiberState :=
  match (t.get? id).bind (·.awaiting) with
  | none => (t, none)
  | some target =>
    let left := match t.get? target with
      | some x => x.yielded
      | none => .except
    let t := t.modify id fun r => { r with state := .exec, awaiting := none }
    (t.modify target fun x => { x with resumer := none, state := left }, some left)

/-- A transfer of control from one stack to another, which is told how the resume that it waits in
ended, if it waits in one. -/
structure Transfer (β : Type) where
  fibers : FiberTable β
  source : FiberId
  target : FiberId
  told : Option FiberState

/-- Lets control arrive at `target`. -/
def transfer (t : FiberTable β) (source target : FiberId) : Transfer β :=
  let (t, told) := t.arrive target
  ⟨t, source, target, told⟩

/-- The rule that a resume would violate, before it is asked who resumes. -/
def resumeFault? (t : FiberTable β) (target : FiberId) (hasScheduler : Bool) : Option Violation :=
  match t.get? target with
  | none => some (.resumeInState target.val .except)
  | some r =>
    if !r.state.isResumable || r.isMain then some (.resumeInState target.val r.state)
    else if r.inScheduler && !hasScheduler then some (.resumeOutsideScheduler target.val)
    else none

/-- The thread that runs `current` resumes `target`. -/
def resume (t : FiberTable β) (current : Option FiberId) (target : FiberId) (hasScheduler : Bool) :
    Except Violation (Transfer β) :=
  match t.resumeFault? target hasScheduler with
  | some v => .error v
  | none =>
    if current = some target then .error (.resumeSelf target.val)
    else
      let (t, caller) := t.currentOrMain current
      .ok ((t.depart caller target).transfer caller target)

/-- The running fiber asks for a state and hands control to its resumer. -/
def handBack (t : FiberTable β) (id : FiberId) (s : FiberState) : Except Violation (Transfer β) :=
  match (t.get? id).bind (·.resumer) with
  | none => .error (.noResumer id.val)
  | some resumer =>
    .ok ((t.modify id fun r => { r with yielded := s }).transfer id resumer)

/-- The thread that runs `current` suspends it, asking for a state. -/
def yield (t : FiberTable β) (current : Option FiberId) (s : FiberState) :
    Except Violation (Transfer β) :=
  match current with
  | none => .error .yieldOutsideFiber
  | some id => if t.inFiber (some id) then t.handBack id s else .error .yieldOutsideFiber

/-- The rule that installing a new body would violate. -/
def resetFault? (t : FiberTable β) (id : FiberId) : Option Violation :=
  match t.get? id with
  | none => some (.resetInState id.val .except)
  | some r =>
    if !r.state.isResettable || r.isMain then some (.resetInState id.val r.state) else none

/-- Installs a new body on the stack of a fiber that has ended or not begun. -/
def reset (t : FiberTable β) (id : FiberId) (entry : β) : Except Violation (FiberTable β) :=
  match t.resetFault? id with
  | some v => .error v
  | none =>
    .ok (t.modify id fun r => { r with entry := some entry, state := .init, awaiting := none })

/-- Takes the body out at the first entry. -/
def takeEntry (t : FiberTable β) (id : FiberId) : FiberTable β × Option β :=
  (t.modify id fun r => { r with entry := none }, (t.get? id).bind (·.entry))

end FiberTable

end Fibers
