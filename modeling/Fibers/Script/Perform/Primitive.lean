import Fibers.Script.Perform.Fiber

/-!
Actions on pollers, counters, semaphores, parking places and stacks.
-/

namespace Fibers.Script

/-- Answers that a system call went well, or its error. -/
def osAnswer : Except OsError Unit → Act Signal
  | .ok () => answer .ok
  | .error e => fail (.os e)

/-- The set of descriptors that a name stands for. -/
def epollNamed (name : String) : Act Nat := do named (← get).names.epolls name

/-- The counter that a name stands for. -/
def counterNamed (name : String) : Act Nat := do named (← get).names.counters name

/-- The semaphore that a name stands for. -/
def semaphoreNamed (name : String) : Act Nat := do named (← get).names.semaphores name

/-- The parking place that a name stands for. -/
def placeNamed (name : String) : Act Nat := do named (← get).names.places name

def World.semaphore (w : World) (id : Nat) : Semaphore := (w.semaphores.get? id).getD ⟨0⟩

def World.parking (w : World) (id : Nat) : Parking := (w.places.get? id).getD .fresh

def putSemaphore (id : Nat) (s : Semaphore) : Act Unit :=
  modify fun w => { w with semaphores := w.semaphores.put id s }

def putPlace (id : Nat) (p : Parking) : Act Unit :=
  modify fun w => { w with places := w.places.put id p }

/-- Takes a permit of a semaphore, if there is one. -/
def takePermit (id : Nat) : Act Bool := do
  match ((← get).semaphore id).take? with
  | some s =>
    putSemaphore id s
    return true
  | none => return false

/-- Gives a permit back `n` times, until one does not fit. -/
def givePermits (id : Nat) : Nat → Act Unit
  | 0 => pure ()
  | n + 1 => do
    match ((← get).semaphore id).give? with
    | some s =>
      putSemaphore id s
      givePermits id n
    | none => raise .addOverflow

/-- Wakes `n` times. -/
def wakePlace (id : Nat) : Nat → Act Unit
  | 0 => pure ()
  | n + 1 => do
    putPlace id ((← get).parking id).wake
    wakePlace id n

/-- What can be seen of a stack of a size. -/
def describeStack (size : Nat) : Datum :=
  .record [("size", .nat size), ("span", .nat size), ("aligned", .flag true)]

/-- Makes a stack for a moment; answers its size. -/
def probeStack (size : Nat) : Act Nat := do
  match ← mapStack size with
  | .error e => fail (.fault e)
  | .ok usable =>
    unmapStack
    return usable

def performPrimitive : PrimitiveAction → Act Signal
  | .epollNew name maxEvents => do
    match ← kernel (·.epollNew maxEvents) with
    | .error e => fail (.os e)
    | .ok id =>
      let former := (← get).names.epolls.get? name
      modify fun w =>
        { w with
          names := { w.names with epolls := w.names.epolls.put name id }
          kernel := match former with
            | some old => { w.kernel with epolls := w.kernel.epolls.erase old }
            | none => w.kernel }
      answer .ok
  | .epollRegister name fd mask => do
    let id ← epollNamed name
    osAnswer (← kernel (·.register id fd mask))
  | .epollModify name fd mask => do
    let id ← epollNamed name
    osAnswer (← kernel (·.modify id fd mask))
  | .epollDeregister name fd => do
    let id ← epollNamed name
    osAnswer (← kernel (·.deregister id fd))
  | .epollWake name => do
    let id ← epollNamed name
    osAnswer (← kernel (·.wake id))
  | .epollWait name timeout => do
    let id ← epollNamed name
    push .answerPolled
    poll id timeout
  | .counterNew name => do
    match ← kernel (·.counterNew) with
    | .error e => fail (.os e)
    | .ok id =>
      modify fun w => { w with names := { w.names with counters := w.names.counters.put name id } }
      answer .ok
  | .counterSignal name => do
    let id ← counterNamed name
    osAnswer (← kernel (·.counterSignal id))
  | .counterDrain name => do
    let id ← counterNamed name
    answer (.nat (← kernel (·.counterDrain id)))
  | .counterAdd name n => do
    let id ← counterNamed name
    answer (.number (if ← kernel (·.counterAdd id n) then 8 else -1))
  | .semaphoreNew name count => do
    let id ← freshId
    putSemaphore id ⟨count.getD 0⟩
    modify fun w =>
      { w with names := { w.names with semaphores := w.names.semaphores.put name id } }
    answer .null
  | .semaphoreTry name => do
    let id ← semaphoreNamed name
    answer (.flag (← takePermit id))
  | .semaphoreWait name => do
    let id ← semaphoreNamed name
    if ← takePermit id then answer .ok
    else if (← get).isConcurrent then
      push (.answer .ok)
      waitFor (.semaphore id none)
    else answer (.text "would_block")
  | .semaphoreTimeout name d => do
    let id ← semaphoreNamed name
    if ← takePermit id then answer (.flag true)
    else if (← get).isConcurrent then waitFor (.semaphore id (← deadline (some d)))
    else answer (.flag false)
  | .semaphoreNotify name times => do
    let id ← semaphoreNamed name
    givePermits id times
    answer .null
  | .semaphoreAvailable name => do
    let id ← semaphoreNamed name
    answer (.nat ((← get).semaphore id).count)
  | .parkingNew name => do
    let id ← freshId
    putPlace id .fresh
    modify fun w => { w with names := { w.names with places := w.names.places.put name id } }
    answer .null
  | .park name d => do
    let id ← placeNamed name
    parkAt (some ((← get).parking id)) (putPlace id) (.place id (← deadline d))
  | .wake name times => do
    let id ← placeNamed name
    wakePlace id times
    answer .null
  | .parkCount name => do
    let id ← placeNamed name
    let n := ((← get).parking id).permits
    putPlace id .fresh
    answer (.nat n)
  | .stack size => do answer (describeStack (← probeStack size))
  | .describeStack size => do
    let usable ← probeStack size
    answer (.text s!"Stack \x7b bottom: <bottom>, top: <top>, size: {usable} \x7d")

end Fibers.Script
