import Fibers.Proofs.Effect
import Fibers.Proofs.Timer.Waking
import Fibers.Script.Perform.Timer

/-!
The hook for a new front as programs meet it. A set of timers of its own counts how often its hook
runs; every call that a program makes on the set raises that count by the wakes of the call, and has
the answer of the call. A cancelled callback must hold no handles here, for letting go of them may
end other things, among them the set itself.
-/

namespace Fibers.Script

variable {set n : Nat} {m : Timers TimerBody} {w : World}

/-- A call on a set of timers, as the actions of programs make it. -/
def ask (set : Nat) : Timers.Call TimerBody → Act (Timers.Answer TimerBody)
  | .add delay callback recurring => return .timer (← addTimer set delay callback recurring)
  | .cancel timer => return .flag (← cancelTimer set timer)
  | .refresh timer => do
    let now := (← get).clock
    return .flag (← rearmed set (← onTimers set (·.refresh now timer)))
  | .reset timer interval fromNow => do
    let now := (← get).clock
    return .flag (← rearmed set (← onTimers set (·.reset now timer interval fromNow)))
  | .isArmed timer => return .flag (((← get).timersOf set).isArmed timer)
  | .next => do
    let now := (← get).clock
    return .wait (← onTimers set (·.next now))
  | .expire => return .callbacks (← expire set)
  | .hasTimer => return .flag ((← get).timersOf set).hasTimer
  | .size => return .count ((← get).timersOf set).size

/-- The set has these timers, and its hook ran so often. -/
def World.Tallies (w : World) (set : Nat) (m : Timers TimerBody) (n : Nat) : Prop :=
  w.timerSets.get? set = some ⟨m, .tally n⟩

theorem World.Tallies.timersOf (h : w.Tallies set m n) : w.timersOf set = m := by
  simp [World.timersOf, show w.timerSets.get? set = _ from h]

theorem onTimers_on {α : Type} (h : w.Tallies set m n)
    (f : Timers TimerBody → Timers TimerBody × α) :
    ∃ w', (onTimers set f).on w = (.ok (f m).2, w') ∧ w'.Tallies set (f m).1 n := by
  refine ⟨{ w with timerSets := w.timerSets.modify set fun s => { s with timers := (f m).1 } },
    ?_, ?_⟩
  · simp only [onTimers, Act.on_bind_get, show w.timerSets.get? set = _ from h, Option.getD_some,
      Act.on_bind_modify]
    rfl
  · simp only [World.Tallies, Table.get?_modify, show w.timerSets.get? set = _ from h]
    rfl

/-- Running the hook where it is due raises the count. -/
theorem notifyFront_on (h : w.Tallies set m n) (wake : Bool) :
    ∃ w', (if wake then notifyFront set else pure () : Act Unit).on w = (.ok (), w') ∧
      w'.Tallies set m (n + wake.toNat) := by
  cases wake with
  | false => exact ⟨w, rfl, h⟩
  | true =>
    let rung := fun s : TimerSet => { s with front := .tally (n + 1) }
    refine ⟨{ w with timerSets := w.timerSets.modify set rung }, ?_, ?_⟩
    · rw [if_pos rfl, notifyFront, Act.on_bind_get, show w.timerSets.get? set = _ from h]
      rfl
    · simp only [World.Tallies, Table.get?_modify, show w.timerSets.get? set = _ from h]
      rfl

/-- The end of an attempt to arm a timer anew. -/
theorem rearmed_on {res : Timers.Rearmed} (h : w.Tallies set m n) (fits : res ≠ .overflow) :
    ∃ w' b, (rearmed set res).on w = (.ok b, w') ∧
      (res.answer : Timers.Answer TimerBody) = .flag b ∧
      w'.Tallies set m (n + res.wakes.toNat) := by
  cases res with
  | absent => exact ⟨w, false, rfl, rfl, h⟩
  | unchanged => exact ⟨w, true, rfl, rfl, h⟩
  | overflow => exact absurd rfl fits
  | armed wake =>
    obtain ⟨w', hw, tally⟩ := notifyFront_on h wake
    exact ⟨w', true, Act.on_when (f := fun _ => return true) hw, rfl, tally⟩

/-- A timer that fits the clock is armed, and the hook runs if it is the new front. -/
theorem addTimer_on (h : w.Tallies set m n) {m' : Timers TimerBody} {delay : Duration}
    {callback : TimerBody} {recurring : Bool} {timer : Nat} {wake : Bool}
    (added : m.add w.clock delay callback recurring = (m', some (timer, wake))) :
    ∃ w', (addTimer set delay callback recurring).on w = (.ok timer, w') ∧
      w'.Tallies set m' (n + wake.toNat) := by
  obtain ⟨v, asked, tally⟩ := onTimers_on h (·.add w.clock delay callback recurring)
  rw [added] at asked tally
  obtain ⟨w', hw, tally⟩ := notifyFront_on tally wake
  refine ⟨w', ?_, tally⟩
  rw [addTimer, Act.on_bind_get, Act.on_bind_ok asked]
  exact Act.on_when (f := fun _ => return timer) hw

/-- The callbacks of a tick are handed over, and their number is logged. -/
theorem expire_on (h : w.Tallies set m n) {callbacks : List TimerBody}
    (due : (m.expire w.clock).2 = .due callbacks) :
    ∃ w', (expire set).on w = (.ok callbacks, w') ∧ w'.Tallies set (m.expire w.clock).1 n := by
  obtain ⟨v, asked, tally⟩ := onTimers_on h (·.expire w.clock)
  obtain ⟨w', hw, quiet⟩ : ∃ w', (if !callbacks.isEmpty then
      log .trace s!"{callbacks.length} timer(s) expired" else pure () : Act Unit).on v =
        (.ok (), w') ∧ Quiet v w' := by
    split
    · exact log_quiet ..
    · exact ⟨v, rfl, .refl v⟩
  refine ⟨w', ?_, ?_⟩
  · rw [expire, Act.on_bind_get, Act.on_bind_ok asked, due]
    exact Act.on_when (f := fun _ => return callbacks) hw
  · obtain ⟨_, _, _, rfl, -⟩ := quiet
    exact tally

/-- A call has its answer, and runs the hook when the timers say so. -/
theorem ask_on (h : w.Tallies set m n) (c : Timers.Call TimerBody)
    (fits : (m.call w.clock c).2 ≠ .overflow)
    (plain : ∀ timer b, (m.cancel timer).2 = some b → b.handles = []) :
    ∃ w', (ask set c).on w = (.ok (m.call w.clock c).2, w') ∧
      w'.Tallies set (m.call w.clock c).1 (n + (m.wakes w.clock c).toNat) := by
  cases c with
  | add delay callback recurring =>
    simp only [Timers.call, Timers.wakes] at fits ⊢
    cases added : m.add w.clock delay callback recurring with
    | mk m' armed =>
      rw [added] at fits
      cases armed with
      | none => exact absurd rfl fits
      | some armed =>
        obtain ⟨w', hw, tally⟩ := addTimer_on h added
        refine ⟨w', ?_, tally⟩
        rw [ask, Act.on_bind_ok hw]
        rfl
  | cancel timer =>
    obtain ⟨v, asked, tally⟩ := onTimers_on h (·.cancel timer)
    refine ⟨v, ?_, tally⟩
    rw [ask, Act.on_bind, cancelTimer, Act.on_bind_ok asked, Timers.call]
    cases res : (m.cancel timer).2 with
    | none => rfl
    | some b =>
      dsimp only
      rw [plain timer b res, Act.on_bind_ok (release_nil v)]
      rfl
  | refresh timer =>
    obtain ⟨v, asked, tally⟩ := onTimers_on h (·.refresh w.clock timer)
    have within : (m.refresh w.clock timer).2 ≠ .overflow := fun e =>
      fits (by rw [Timers.call, e]; rfl)
    obtain ⟨w', b, hw, answer, tally⟩ := rearmed_on tally within
    refine ⟨w', ?_, tally⟩
    rw [ask, Act.on_bind_get, Act.on_bind_ok asked, Act.on_bind_ok hw, Timers.call, answer]
    rfl
  | reset timer interval fromNow =>
    obtain ⟨v, asked, tally⟩ := onTimers_on h (·.reset w.clock timer interval fromNow)
    have within : (m.reset w.clock timer interval fromNow).2 ≠ .overflow := fun e =>
      fits (by rw [Timers.call, e]; rfl)
    obtain ⟨w', b, hw, answer, tally⟩ := rearmed_on tally within
    refine ⟨w', ?_, tally⟩
    rw [ask, Act.on_bind_get, Act.on_bind_ok asked, Act.on_bind_ok hw, Timers.call, answer]
    rfl
  | next =>
    obtain ⟨v, asked, tally⟩ := onTimers_on h (·.next w.clock)
    refine ⟨v, ?_, tally⟩
    rw [ask, Act.on_bind_get, Act.on_bind_ok asked]
    rfl
  | expire =>
    simp only [Timers.call] at fits ⊢
    cases res : (m.expire w.clock).2 with
    | overflow lost => exact absurd (by rw [res]; rfl) fits
    | due callbacks =>
      obtain ⟨w', hw, tally⟩ := expire_on h res
      refine ⟨w', ?_, tally⟩
      rw [ask, Act.on_bind_ok hw]
      rfl
  | isArmed timer | hasTimer | size =>
    refine ⟨w, ?_, h⟩
    rw [ask, Act.on_bind_get, h.timersOf]
    rfl

end Fibers.Script
