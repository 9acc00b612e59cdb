import Fibers.Script.Perform.Reactor

/-!
Actions on timers and the clock. Timers live in a set of their own or in a reactor; a handle of a
timer outlives its set and then answers that nothing is armed.
-/

namespace Fibers.Script

/-- The set of timers that a name stands for: one of its own or that of a reactor. -/
def timersNamed (name : String) : Act Nat := do
  let w ← get
  match w.names.timerSets.get? name with
  | some id => return id
  | none =>
    let (_, r) ← reactorNamed name
    return (← reactorRecord r).timers

/-- The timer that a name stands for, and its set. -/
def timerNamed (name : String) : Act (Nat × Nat) := do named (← get).names.timers name

def nameTimer (name : String) (set id : Nat) : Act Unit :=
  modify fun w => { w with names := { w.names with timers := w.names.timers.put name (set, id) } }

/-- Gives a name to a new set of timers; a set that had the name ends. -/
def newTimers (name : String) : Act Unit := do
  let id ← freshId
  let former := (← get).names.timerSets.get? name
  modify fun w =>
    { w with
      timerSets := w.timerSets.put id ⟨.empty, .tally 0⟩
      names := { w.names with timerSets := w.names.timerSets.put name id } }
  match former with
  | some old => do release (← endTimers old)
  | none => pure ()

/-- Ends a set of timers; answers whether the name stood for one. -/
def dropTimers (name : String) : Act Datum := do
  match (← get).names.timerSets.get? name with
  | none => return .flag false
  | some id =>
    modify fun w =>
      { w with names := { w.names with timerSets := w.names.timerSets.erase name } }
    release (← endTimers id)
    return .flag true

/-- Arms a timer under a name; answers the text of its handle. -/
def armTimer (set : Nat) (name : String) (delay : Duration) (callback : TimerBody)
    (recurring : Bool) : Act Signal := do
  let id ← addTimer set delay callback recurring
  nameTimer name set id
  answer (.text s!"Timer \x7b id: {id} \x7d")

/-- Disarms a timer; answers whether it was armed. -/
def cancelTimer (set id : Nat) : Act Bool := do
  match ← onTimers set (·.cancel id) with
  | some callback =>
    release callback.handles
    return true
  | none => return false

/-- Finishes an attempt to arm a timer anew. -/
def rearmed (set : Nat) : Timers.Rearmed → Act Bool
  | .absent => return false
  | .unchanged => return true
  | .overflow => raise .instantOverflow
  | .armed wake => do
    if wake then notifyFront set
    return true

/-- Makes an object under a name; one that had the name is gone. -/
def newObject (name : String) : Act Unit := do
  let id ← freshId
  modify fun w =>
    let objects := match w.names.objects.get? name with
      | some old => w.objects.erase old
      | none => w.objects
    { w with
      objects := id :: objects
      names := { w.names with objects := w.names.objects.put name id } }

/-- Lets an object go; answers whether there was one. -/
def dropObject (name : String) : Act Bool := do
  match (← get).names.objects.get? name with
  | none => return false
  | some id =>
    modify fun w =>
      { w with
        objects := w.objects.erase id
        names := { w.names with objects := w.names.objects.erase name } }
    return true

/-- The set of timers behind an identity. -/
def World.timersOf (w : World) (set : Nat) : Timers TimerBody :=
  match w.timerSets.get? set with
  | some s => s.timers
  | none => .empty

/-- Runs callbacks one after the other; answers how many. -/
def runCallbacks (callbacks : List TimerBody) : Act Signal := do
  push (.callbacks callbacks callbacks.length)
  return .done .null

/-- Answers the time since the start of the clock, which may have gone round to before it. -/
def readClock : Act Signal := do
  let w ← get
  if w.clock < startOfClock then raise .subtractOverflow else answer (.nat w.elapsed)

def performTimer (label : String) : TimerAction → Act Signal
  | .new name => do
    newTimers name
    answer .null
  | .add timers name delay body recurring => do
    let set ← timersNamed timers
    armTimer set name delay (.script (← blockOf body) label) recurring
  | .addGuarded timers name delay body recurring object => do
    let set ← timersNamed timers
    let block ← blockOf body
    let object ← named (← get).names.objects object
    armTimer set name delay (.guarded object block label) recurring
  | .newObject name => do
    newObject name
    answer .null
  | .dropObject name => do answer (.flag (← dropObject name))
  | .cancel name => do
    let (set, id) ← timerNamed name
    answer (.flag (← cancelTimer set id))
  | .refresh name => do
    let (set, id) ← timerNamed name
    let now := (← get).clock
    answer (.flag (← rearmed set (← onTimers set (·.refresh now id))))
  | .reset name interval fromNow => do
    let (set, id) ← timerNamed name
    let now := (← get).clock
    answer (.flag (← rearmed set (← onTimers set (·.reset now id interval fromNow))))
  | .armed name => do
    let (set, id) ← timerNamed name
    answer (.flag (((← get).timersOf set).isArmed id))
  | .next timers => do
    let set ← timersNamed timers
    let now := (← get).clock
    answer (.durationOrNull (← onTimers set (·.next now)))
  | .inspect timers => do
    let set ← timersNamed timers
    let t := (← get).timersOf set
    answer (.list [.nat t.size, .flag !t.hasTimer, .flag t.hasTimer])
  | .expire timers => do
    let set ← timersNamed timers
    runCallbacks (← expire set)
  | .expireHold timers body => do
    let set ← timersNamed timers
    let block ← blockOf body
    let callbacks ← expire set
    push (.callbacks callbacks callbacks.length)
    startBlock block label
  | .wakes timers => do
    let set ← named (← get).names.timerSets timers
    match (← get).timerSets.get? set with
    | some ⟨_, .tally n⟩ => answer (.nat n)
    | _ => answer .null
  | .drop timers => do answer (← dropTimers timers)
  | .advance d => do
    modify fun w => { w with clock := Instant.later w.clock d }
    readClock
  | .now => readClock

end Fibers.Script
