import Fibers.Script.Frames

/-!
Running a program. In a round every thread in turn makes one step: it looks whether what it waits
for has come, or lets its top frame go on. Where time flows, a round takes a moment, and if all
threads wait the clock goes on to the first moment at which one of them has waited long enough. The
run is over when the main thread has ended, the program was aborted, or nobody can go on.
-/

namespace Fibers.Script

/-- The moment at which a wait ends by itself. -/
def Wait.until? : Wait → Option Instant
  | .semaphore _ t | .place _ t | .hooksPlace _ t | .epoll _ _ t => t
  | .moment t => some t
  | .flag _ | .thread _ | .workersUp _ => none

/-- Whether a moment has come. -/
def World.isPast (w : World) (t : Option Instant) : Bool :=
  match t with
  | some t => t ≤ w.clock
  | none => false

/-- Whether a thread has ended. -/
def World.hasEnded (w : World) (id : ThreadId) : Bool :=
  match w.threads.get? id with
  | some t => t.ended.isSome
  | none => true

/-- Whether a worker thread is up or was. -/
def World.isUp (w : World) (id : ThreadId) : Bool :=
  w.hasEnded id || ((w.threads.get? id).map (·.up)).getD true

/-- What a permit or the end of a time does to a wait. -/
def permitted (taken : Bool) (until? : Option Instant) : Act (Option Signal) := do
  if taken then return some (.done (.flag true))
  else if (← get).isPast until? then return some (.done (.flag false))
  else return none

/-- What a wait is told, if it is over. -/
def tryWait : Wait → Act (Option Signal)
  | .flag name => do
    return if (← get).flags.contains name then some (.done .null) else none
  | .semaphore id t => do permitted (← takePermit id) t
  | .place id t => do
    match ((← get).parking id).take? with
    | some p =>
      putPlace id p
      permitted true t
    | none => permitted false t
  | .hooksPlace s t => do
    match (← schedulerRecord s).hooks with
    | .parking place =>
      match place.take? with
      | some p =>
        updateScheduler s fun r => { r with hooks := .parking p }
        permitted true t
      | none => permitted false t
    | _ => permitted false t
  | .thread id => do
    return if (← get).hasEnded id then some (.done .null) else none
  | .workersUp threads => do
    let w ← get
    return if threads.all w.isUp then some (.done .null) else none
  | .epoll id millis t => do
    match ← pollNow id millis with
    | some found => return some (.polled (.ok found))
    | none =>
      if (← get).isPast t then
        kernelDo (·.logWait millis 0)
        return some (.polled (.ok []))
      else return none
  | .moment t => do
    return if (← get).isPast (some t) then some (.done .null) else none

/-- Runs an effect; a stop becomes a signal. -/
def World.perform (w : World) (act : Act Signal) : Signal × World :=
  match act.run.run w with
  | (.ok s, w) => (s, w)
  | (.error (.panic p), w) => (.raised p, w)
  | (.error (.failure f), w) => (.failed f, w)

def World.updateThread (w : World) (f : Thread → Thread) : World :=
  { w with threads := w.threads.modify w.running f }

/-- The thread has run all its frames; its main fiber ends with it. -/
def World.endThread (w : World) (t : Thread) : World :=
  let p := match t.signal with
    | .raised p => some p
    | _ => none
  let w := w.updateThread fun t => { t with ended := some p }
  if w.running = mainThread then w
  else
    let held := (t.main.map Handle.fiber).toList
    let (_, w) := w.perform do
      release held
      return .done .null
    w.updateThread fun t => { t with current := none, main := none }

/-- A step of the thread whose turn it is; answers whether it could make one. -/
def World.step (w : World) : Bool × World :=
  let t := w.thread
  if t.ended.isSome then (false, w)
  else
    match t.wait with
    | some wait =>
      match (tryWait wait).run.run w with
      | (.ok (some s), w) => (true, w.updateThread fun t => { t with wait := none, signal := s })
      | (_, w) => (false, w)
    | none =>
      match t.frames with
      | [] => (true, w.endThread t)
      | f :: rest =>
        let w := w.updateThread fun t => { t with frames := rest }
        let (s, w) := w.perform (proceedWith f t.signal)
        (true, w.updateThread fun t => { t with signal := s })

/-- The threads in the order in which they started. -/
def World.threadIds (w : World) : List ThreadId := (w.threads.entries.map (·.1)).reverse

/-- Lets threads make a step in turn; answers whether one could. -/
def World.turns (w : World) : List ThreadId → Bool × World
  | [] => (false, w)
  | id :: ids =>
    if w.aborted then (true, w)
    else
      let (moved, w) := { w with running := id }.step
      let (others, w) := w.turns ids
      (moved || others, w)

/-- The first moment at which a wait ends by itself. -/
def World.nextMoment (w : World) : Option Instant :=
  (w.threads.entries.filterMap fun e => e.2.wait.bind Wait.until?).min?

/-- The time that a round takes where time flows. -/
def roundTime : Duration := 1000

/-- A round; nothing if nobody can go on. -/
def World.round (w : World) : Option World :=
  let (moved, w) := w.turns w.threadIds
  match w.timing, moved with
  | .frozen, true => some w
  | .frozen, false => none
  | .flowing, true => some { w with clock := w.clock + roundTime }
  | .flowing, false => w.nextMoment.map fun t => { w with clock := max t (w.clock + roundTime) }

/-- Whether the run is over. -/
def World.isOver (w : World) : Bool := w.aborted || w.hasEnded mainThread

/-- Runs at most a number of rounds. -/
def World.runUpTo : Nat → World → World
  | 0, w => w
  | n + 1, w =>
    if w.isOver then w
    else
      match w.round with
      | some w => w.runUpTo n
      | none => w

/-- The most rounds that a program is given. -/
def maxRounds : Nat := 20000000

/-- Runs a program to its end. -/
def World.run (w : World) : World := w.runUpTo maxRounds

end Fibers.Script
