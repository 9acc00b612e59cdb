import Fibers.Proofs.Manager.History

/-!
The sleeps of a run. A round in which a fiber calls for a sleep, and one in which such a call comes
back, are entered in a diary with the reading of the clock; the sleeps of a diary are its calls, in
order, each with the first return of its fiber after it.
-/

namespace Fibers.Script

/-- Something that happens to the sleeps of fibers. -/
inductive SleepEvent where
  /-- A fiber calls for a sleep. -/
  | begun (fiber : FiberId) (label : String) (duration : Duration) (t : Instant)
  /-- The call comes back. -/
  | ended (fiber : FiberId) (t : Instant)
  deriving DecidableEq, Repr

namespace SleepEvent

/-- When a fiber is back from a sleep. -/
def returns? (id : FiberId) : SleepEvent → Option Instant
  | begun .. => none
  | ended fiber t => if fiber = id then some t else none

/-- The fiber that is back from a sleep, and when. -/
def ending? : SleepEvent → Option (FiberId × Option Instant)
  | begun .. => none
  | ended fiber t => some (fiber, some t)

end SleepEvent

/-- What the next round of a thread with some frames does to sleeps. The handles that a sleep holds
are let go of as soon as its fiber goes on. -/
def sleepEvents (frames : List Frame) (current : Option FiberId) (now : Instant) :
    List SleepEvent :=
  match frames, current with
  | .steps (.perform _ (.fiber (.sleep d)) :: _) label :: _, some id => [.begun id label d now]
  | .release [.scheduler _, .reactor _] :: .answerClock :: _, some id => [.ended id now]
  | _, _ => []

def World.sleepEvents (w : World) : List SleepEvent :=
  Script.sleepEvents w.thread.frames w.thread.current w.clock

/-- What happens to sleeps from a world on, in rounds of a stop that has not returned. -/
inductive Diary (back : List Frame) (start : World) : List SleepEvent → World → Prop where
  | start : Diary back start [] start
  | round {w w' : World} {log : List SleepEvent} (past : Diary back start log w)
      (busy : ¬w.Returned back) (next : w.round = some w') :
    Diary back start (log ++ w.sleepEvents) w'

/-- No deadline overflows before a stop returns. -/
def InTime (back : List Frame) (w : World) : Prop := ∀ log v, Diary back w log v → v.Timely

namespace Diary

variable {back : List Frame} {u v w : World} {log log' : List SleepEvent}

theorem one (busy : ¬u.Returned back) (next : u.round = some v) :
    Diary back u u.sleepEvents v := .round .start busy next

theorem trans (h : Diary back u log v) (g : Diary back v log' w) :
    Diary back u (log ++ log') w := by
  induction g with
  | start =>
    rw [List.append_nil]
    exact h
  | round past busy next ih =>
    rw [← List.append_assoc]
    exact .round ih busy next

theorem inTime (h : Diary back u log v) (timely : InTime back u) : InTime back v :=
  fun log' w g => timely (log ++ log') w (h.trans g)

end Diary

/-- A sleep: who sleeps for how long, when the call was made, and when it came back. -/
structure Sleep where
  fiber : FiberId
  label : String
  duration : Duration
  begun : Instant
  woken : Option Instant
  deriving DecidableEq, Repr

namespace Sleep

/-- The moment up to which a fiber is to sleep. -/
def due (s : Sleep) : Instant := s.begun + s.duration

/-- A sleep after a return of a fiber: its own one ends it. -/
def back (id : FiberId) (t : Instant) (s : Sleep) : Sleep :=
  if s.fiber = id ∧ s.woken = none then { s with woken := some t } else s

theorem back_other {id : FiberId} {s : Sleep} (t : Instant) (other : s.fiber ≠ id) :
    s.back id t = s := if_neg fun own => other own.1

theorem back_over {s : Sleep} (id : FiberId) (t : Instant) (done : s.woken ≠ none) :
    s.back id t = s := if_neg fun own => done own.2

theorem back_own {s : Sleep} (t : Instant) (asleep : s.woken = none) :
    s.back s.fiber t = { s with woken := some t } := if_pos ⟨rfl, asleep⟩

/-- Who slept for how long, by the label of the script. -/
def task (s : Sleep) : String × Duration := (s.label, s.duration)

/-- A return changes neither until when a fiber was to sleep nor who it was. -/
theorem due_back (id : FiberId) (t : Instant) (s : Sleep) : (s.back id t).due = s.due := by
  rw [back]
  split <;> rfl

theorem task_back (id : FiberId) (t : Instant) (s : Sleep) : (s.back id t).task = s.task := by
  rw [back]
  split <;> rfl

/-- A sleep that came back at the moment for which it was called, or less than a millisecond
later. -/
def IsExact (s : Sleep) : Prop :=
  ∃ t, s.woken = some t ∧ s.due ≤ t ∧ t < s.due + Duration.ofMillis 1

end Sleep

/-- The sleeps of a diary in the order of their calls. -/
def sleeps : List SleepEvent → List Sleep
  | [] => []
  | .begun fiber label duration t :: log =>
    ⟨fiber, label, duration, t, log.findSome? (·.returns? fiber)⟩ :: sleeps log
  | .ended .. :: log => sleeps log

/-- The returns of a diary in order. -/
def endings (log : List SleepEvent) : List (FiberId × Option Instant) :=
  log.filterMap SleepEvent.ending?

theorem sleeps_begun (log : List SleepEvent) (id : FiberId) (label : String) (d : Duration)
    (t : Instant) :
    sleeps (log ++ [.begun id label d t]) = sleeps log ++ [⟨id, label, d, t, none⟩] := by
  induction log with
  | nil => rfl
  | cons e log ih =>
    cases e with
    | begun => simp [sleeps, ih, SleepEvent.returns?]
    | ended => simp [sleeps, ih]

theorem sleeps_ended (log : List SleepEvent) (id : FiberId) (t : Instant) :
    sleeps (log ++ [.ended id t]) = (sleeps log).map (Sleep.back id t) := by
  induction log with
  | nil => rfl
  | cons e log ih =>
    cases e with
    | ended => simp [sleeps, ih]
    | begun fiber label d t' =>
      simp only [List.cons_append, sleeps, ih, List.map_cons, List.findSome?_append, Sleep.back]
      cases log.findSome? (·.returns? fiber) with
      | some t => simp
      | none =>
        by_cases same : fiber = id
        · simp [SleepEvent.returns?, same]
        · simp [SleepEvent.returns?, same, eq_comm]

theorem endings_begun (log : List SleepEvent) (id : FiberId) (label : String) (d : Duration)
    (t : Instant) : endings (log ++ [.begun id label d t]) = endings log := by
  simp [endings, SleepEvent.ending?]

theorem endings_ended (log : List SleepEvent) (id : FiberId) (t : Instant) :
    endings (log ++ [.ended id t]) = endings log ++ [(id, some t)] := by
  simp [endings, SleepEvent.ending?]

end Fibers.Script
