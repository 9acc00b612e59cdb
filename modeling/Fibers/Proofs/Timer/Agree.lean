import Fibers.Proofs.Timer.Ledger
import Fibers.Proofs.Timer.Sound

/-!
A set of timers beside the plain record of its armed timers. `Agree` ties the two: they know the
same of the same armed timers, and the set is sound. Arming, disarming and arming anew have the same
answer on both sides and keep the two tied.
-/

namespace Fibers

theorem Instant.eq_of_add? {t d x : Nat} (h : Instant.add? t d = some x) : x = t + d := by
  simp only [Instant.add?] at h
  split at h
  · exact (Option.some.inj h).symm
  · exact absurd h (by simp)

namespace Timers

open Arming

variable {κ : Type}

/-- The slot that a set of timers has for a recorded one. -/
def Plan.slot (p : Plan κ) : TimerSlot κ :=
  ⟨p.number, p.deadline, p.interval, p.recurring, p.callback⟩

/-- A set of timers and a record know the same of the same armed timers. -/
structure Matches (m : Timers κ) (l : Ledger κ) : Prop where
  distinct : l.plans.Distinct
  view : ∀ id, m.slots.get? id = (l.plans.get? id).map Plan.slot
  lastId : m.lastId = l.lastId
  lastSeq : m.lastSeq = l.lastNumber

/-- A sound set of timers and its record. -/
structure Agree (m : Timers κ) (l : Ledger κ) : Prop extends Matches m l where
  sound : m.Sound []

theorem agree_empty : Agree (empty : Timers κ) Ledger.empty where
  distinct := Table.distinct_empty
  view := by simp [empty, Ledger.empty]
  lastId := rfl
  lastSeq := rfl
  sound := sound_empty

theorem Matches.slot_eq {m : Timers κ} {l : Ledger κ} (h : Matches m l) {id : Nat} {p : Plan κ}
    (hp : l.plans.get? id = some p) : m.slots.get? id = some p.slot := by
  rw [h.view, hp, Option.map_some]

theorem Matches.isSome_eq {m : Timers κ} {l : Ledger κ} (h : Matches m l) (id : Nat) :
    (m.slots.get? id).isSome = (l.plans.get? id).isSome := by
  rw [h.view, Option.isSome_map]

/-- Only the slots, the last identity and the last number of a set are recorded. -/
theorem Matches.congr {m m' : Timers κ} {l : Ledger κ} (h : Matches m l) (hs : m'.slots = m.slots)
    (hi : m'.lastId = m.lastId) (hn : m'.lastSeq = m.lastSeq) : Matches m' l :=
  ⟨h.distinct, by rw [hs]; exact h.view, hi.trans h.lastId, hn.trans h.lastSeq⟩

/-- Arming on both sides keeps what is known the same. -/
theorem Matches.arm {m : Timers κ} {l : Ledger κ} (h : Matches m l) (id : Nat) (p : Plan κ)
    {slots : Table Nat (TimerSlot κ)}
    (hself : slots.get? id = some { p with number := m.lastSeq + 1 }.slot)
    (hother : ∀ j, j ≠ id → slots.get? j = m.slots.get? j) :
    Matches { m.arm id p.deadline with slots := slots } (l.arm id p) := by
  refine ⟨Table.distinct_put h.distinct _ _, ?_, h.lastId, congrArg (· + 1) h.lastSeq⟩
  intro j
  simp only [Ledger.arm, Table.get?_put]
  split
  · next hj => rw [hj, hself, h.lastSeq, Option.map_some]
  · next hj => rw [hother j hj, h.view]

theorem compact_view (m : Timers κ) :
    m.compact.slots = m.slots ∧ m.compact.lastId = m.lastId ∧ m.compact.lastSeq = m.lastSeq := by
  unfold Timers.compact
  split <;> exact ⟨rfl, rfl, rfl⟩

theorem frontWake_view (m : Timers κ) (seq : Nat) :
    (m.frontWake seq).1.slots = m.slots ∧ (m.frontWake seq).1.lastId = m.lastId ∧
      (m.frontWake seq).1.lastSeq = m.lastSeq := by
  unfold Timers.frontWake
  split <;> exact ⟨rfl, rfl, rfl⟩

/-- Numbers tell armed timers apart. -/
theorem Agree.id_eq_of_number_eq {m : Timers κ} {l : Ledger κ} (h : Agree m l) {i j : Nat}
    {p q : Plan κ} (hp : l.plans.get? i = some p) (hq : l.plans.get? j = some q)
    (hn : p.number = q.number) : i = j := by
  have hi := h.sound.queued i _ (h.slot_eq hp) List.not_mem_nil
  have hj := h.sound.queued j _ (h.slot_eq hq) List.not_mem_nil
  exact congrArg Arming.id (eq_of_seq_eq h.sound.numbered hi hj hn)

/-- Arming a timer by its slot, whatever is thrown out or told afterwards. -/
theorem Agree.arm {m : Timers κ} {l : Ledger κ} (h : Agree m l) (id : Nat) (p : Plan κ) :
    Agree { m.arm id p.deadline with
      slots := m.slots.put id { p with number := m.lastSeq + 1 }.slot } (l.arm id p) where
  toMatches := h.toMatches.arm id p (Table.get?_put_self ..) fun _ hj => Table.get?_put_other _ _ hj
  sound := by
    refine h.sound.arm id p.deadline (Table.distinct_put h.sound.distinct _ _) ?_
      (fun _ hj => Table.get?_put_other _ _ hj) (fun _ hj => absurd hj List.not_mem_nil)
    intro s hs
    rw [Table.get?_put_self] at hs
    obtain rfl := Option.some.inj hs
    exact ⟨rfl, rfl⟩

theorem Agree.compact {m : Timers κ} {l : Ledger κ} (h : Agree m l) : Agree m.compact l where
  toMatches := h.toMatches.congr (compact_view m).1 (compact_view m).2.1 (compact_view m).2.2
  sound := h.sound.compact

theorem Agree.frontWake {m : Timers κ} {l : Ledger κ} (h : Agree m l) (seq : Nat) :
    Agree (m.frontWake seq).1 l where
  toMatches :=
    h.toMatches.congr (frontWake_view m seq).1 (frontWake_view m seq).2.1 (frontWake_view m seq).2.2
  sound := h.sound.frontWake seq

theorem add_agree {m : Timers κ} {l : Ledger κ} (h : Agree m l) (now : Instant) (delay : Duration)
    (callback : κ) (recurring : Bool) :
    let c := Call.add delay callback recurring
    (m.call now c).2 = (l.call now c).2 ∧ Agree (m.call now c).1 (l.call now c).1 := by
  have hid : Agree { m with lastId := m.lastId + 1 } { l with lastId := l.lastId + 1 } :=
    ⟨⟨h.distinct, h.view, congrArg (· + 1) h.lastId, h.lastSeq⟩,
      ⟨h.sound.distinct, h.sound.sorted, h.sound.numbered, h.sound.bounded, h.sound.queued⟩⟩
  simp only [Timers.call, Ledger.call, Timers.add, Ledger.add]
  cases hadd : now.add? delay with
  | none => exact ⟨rfl, hid⟩
  | some deadline =>
    obtain rfl := Instant.eq_of_add? hadd
    have harm := hid.arm (m.lastId + 1) ⟨now, delay, recurring, callback, 0⟩
    rw [← h.lastId] at harm ⊢
    exact ⟨rfl, harm.frontWake _⟩

theorem cancel_agree {m : Timers κ} {l : Ledger κ} (h : Agree m l) (now : Instant) (id : Nat) :
    let c := Call.cancel id
    (m.call now c).2 = (l.call now c).2 ∧ Agree (m.call now c).1 (l.call now c).1 := by
  have hview := h.view id
  have herase :
      Agree { m with slots := m.slots.erase id } { l with plans := l.plans.erase id } := by
    refine ⟨⟨Table.distinct_erase h.distinct id, ?_, h.lastId, h.lastSeq⟩, h.sound.erase id⟩
    intro j
    simp only [Table.get?_erase]
    split
    · rfl
    · exact h.view j
  simp only [Timers.call, Ledger.call, Timers.cancel, Ledger.cancel, Table.contains_eq_isSome]
  cases hp : l.plans.get? id with
  | none =>
    rw [hp, Option.map_none] at hview
    simp only [hview]
    refine ⟨rfl, ⟨⟨herase.distinct, ?_, h.lastId, h.lastSeq⟩, h.sound⟩⟩
    intro j
    rw [Table.get?_erase]
    split
    · next hj => rw [hj, hview, Option.map_none]
    · exact h.view j
  | some p =>
    rw [hp, Option.map_some] at hview
    simp only [hview]
    exact ⟨rfl, herase.compact⟩

/-- Arming a recorded timer anew. -/
theorem rearm_agree {m : Timers κ} {l : Ledger κ} (h : Agree m l) (id : Nat) (p : Plan κ)
    (start : Instant) (interval : Duration) :
    let res := m.rearm id p.slot start interval
    let rec' := l.rearm id { p with armedAt := start, interval := interval }
    res.2.answer = rec'.2 ∧ Agree res.1 rec'.1 := by
  simp only [Timers.rearm, Ledger.rearm]
  cases hadd : start.add? interval with
  | none => exact ⟨rfl, h⟩
  | some deadline =>
    obtain rfl := Instant.eq_of_add? hadd
    have harm := h.arm id { p with armedAt := start, interval := interval }
    exact ⟨rfl, harm.compact.frontWake _⟩

theorem refresh_agree {m : Timers κ} {l : Ledger κ} (h : Agree m l) (now : Instant) (id : Nat) :
    let c := Call.refresh id
    (m.call now c).2 = (l.call now c).2 ∧ Agree (m.call now c).1 (l.call now c).1 := by
  have hview := h.view id
  simp only [Timers.call, Ledger.call, Timers.refresh, Ledger.refresh]
  cases hp : l.plans.get? id with
  | none =>
    rw [hp, Option.map_none] at hview
    simp only [hview]
    exact ⟨rfl, h⟩
  | some p =>
    rw [hp, Option.map_some] at hview
    simp only [hview]
    exact rearm_agree h id p now p.interval

theorem reset_agree {m : Timers κ} {l : Ledger κ} (h : Agree m l) (now : Instant) (id : Nat)
    (interval : Duration) (fromNow : Bool) :
    let c := Call.reset id interval fromNow
    (m.call now c).2 = (l.call now c).2 ∧ Agree (m.call now c).1 (l.call now c).1 := by
  have hview := h.view id
  simp only [Timers.call, Ledger.call, Timers.reset, Ledger.reset]
  cases hp : l.plans.get? id with
  | none =>
    rw [hp, Option.map_none] at hview
    simp only [hview]
    exact ⟨rfl, h⟩
  | some p =>
    rw [hp, Option.map_some] at hview
    -- The last arming is found again as the deadline less the interval.
    have hstart : p.slot.deadline - p.slot.interval = p.armedAt := Nat.add_sub_cancel ..
    simp only [hview, hstart]
    by_cases hsame : interval = p.interval ∧ fromNow = false
    · simp only [Plan.slot, hsame, and_self, ↓reduceIte]
      exact ⟨rfl, h⟩
    · have hslot : p.slot.interval = p.interval := rfl
      simp only [hslot, hsame, ↓reduceIte]
      exact rearm_agree h id p _ interval

end Timers

end Fibers
