import Fibers.Script.Idle

/-!
Arming timers, sleeping and giving way. A fiber that runs under a reactor sleeps alone: a timer
queues it again, and its worker goes on. Anything else that sleeps stops its thread.
-/

namespace Fibers.Script

/-- Tells whoever waits that a timer came to the front. -/
def notifyFront (set : Nat) : Act Unit := do
  match (← get).timerSets.get? set with
  | none => pure ()
  | some s =>
    match s.front with
    | .tally n =>
      modify fun w =>
        { w with timerSets := w.timerSets.modify set fun s => { s with front := .tally (n + 1) } }
    | .epoll id => wakePoller id "reactor wake failed"

/-- Arms a timer, which takes over the handles of its callback. -/
def addTimer (set : Nat) (delay : Duration) (callback : TimerBody) (recurring : Bool) :
    Act Nat := do
  let now := (← get).clock
  match ← onTimers set (·.add now delay callback recurring) with
  | none =>
    release callback.handles
    raise .instantOverflow
  | some (id, wake) =>
    if wake then notifyFront set
    return id

/-- Suspends the running fiber until a timer of its reactor queues it. -/
def sleepFiber (s : SchedulerId) (r : ReactorId) (d : Duration) : Act Signal := do
  let id ← currentOrMain
  retainAll [.scheduler s, .reactor r]
  push (.release [.scheduler s, .reactor r])
  let callback : TimerBody := .wake s id
  retainAll callback.handles
  let _ ← addTimer (((← get).reactors.get? r).getD default).timers d callback false
  yieldTo .hold

/-- Lets time pass for the whole thread. -/
def sleepThread (d : Duration) : Act Signal := do
  let w ← get
  if w.isConcurrent then waitFor (.moment (w.clock + d))
  else
    modify fun w => { w with clock := Instant.later w.clock d }
    return .done .null

/-- Sleeps: only the fiber, where a reactor can wake it, else the thread. -/
def sleep (d : Duration) : Act Signal := do
  let w ← get
  match w.currentScheduler with
  | some s =>
    match w.reactorOf s with
    | some r => if w.inFiber then sleepFiber s r d else sleepThread d
    | none => sleepThread d
  | none => sleepThread d

/-- Lets others run. -/
def yieldNow : Act Signal := do
  let w ← get
  if w.inFiber && w.currentScheduler.isSome then yieldTo .ready else return .done .null

end Fibers.Script
