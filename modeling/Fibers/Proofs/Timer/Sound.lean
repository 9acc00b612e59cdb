import Fibers.Proofs.Table
import Fibers.Timer.Basic

/-!
What holds of every set of timers: the entries stand in the order of expiry, each under a number of
its own, and every armed timer has an entry with its number and its deadline. Dead entries may stand
anywhere among them. Each operation keeps this; `Sound` names the timers that are still waiting for
their new entry, as recurring timers do in the middle of an expiry.
-/

namespace Fibers

namespace Arming

theorem before_iff (a b : Arming) :
    a.before b = true ↔ a.deadline < b.deadline ∨ a.deadline = b.deadline ∧ a.seq < b.seq := by
  simp [before]

theorem before_total {a b : Arming} (h : a.seq ≠ b.seq) (hab : ¬ a.before b = true) :
    b.before a = true := by
  rw [before_iff] at *
  unfold Instant at *
  omega

theorem before_deadline_le {a b : Arming} (h : a.before b = true) : a.deadline ≤ b.deadline := by
  rw [before_iff] at h
  unfold Instant at *
  omega

theorem before_trans {a b c : Arming} (hab : a.before b = true) (hbc : b.before c = true) :
    a.before c = true := by
  rw [before_iff] at *
  unfold Instant at *
  omega

/-- The entries in the order of expiry. -/
def Sorted (l : List Arming) : Prop := l.Pairwise fun a b => a.before b = true

/-- Each entry has a number of its own. -/
def Numbered (l : List Arming) : Prop := (l.map (·.seq)).Nodup

theorem insert_perm (a : Arming) (l : List Arming) : (insert a l).Perm (a :: l) := by
  induction l with
  | nil => exact .refl _
  | cons b l ih =>
    simp only [insert]
    split
    · exact .refl _
    · exact (ih.cons b).trans (.swap a b l)

theorem mem_insert {a b : Arming} {l : List Arming} : b ∈ insert a l ↔ b = a ∨ b ∈ l := by
  rw [(insert_perm a l).mem_iff, List.mem_cons]

theorem insert_sorted {a : Arming} {l : List Arming} (h : Sorted l) (ha : ∀ b ∈ l, a.seq ≠ b.seq) :
    Sorted (insert a l) := by
  induction l with
  | nil => exact List.pairwise_singleton _ _
  | cons b l ih =>
    obtain ⟨hb, hl⟩ := List.pairwise_cons.mp h
    simp only [insert]
    split
    · next hab =>
      refine List.pairwise_cons.mpr ⟨?_, h⟩
      intro c hc
      rcases List.mem_cons.mp hc with rfl | hc
      · exact hab
      · exact before_trans hab (hb c hc)
    · next hab =>
      refine List.pairwise_cons.mpr ⟨?_, ih hl fun c hc => ha c (List.mem_cons_of_mem _ hc)⟩
      intro c hc
      rcases mem_insert.mp hc with rfl | hc
      · exact before_total (ha b (List.mem_cons_self ..)) hab
      · exact hb c hc

theorem insert_numbered {a : Arming} {l : List Arming} (h : Numbered l)
    (ha : ∀ b ∈ l, a.seq ≠ b.seq) : Numbered (insert a l) := by
  unfold Numbered at *
  rw [((insert_perm a l).map _).nodup_iff, List.map_cons, List.nodup_cons]
  refine ⟨?_, h⟩
  intro hmem
  obtain ⟨b, hb, hs⟩ := List.mem_map.mp hmem
  exact ha b hb hs.symm

theorem eq_of_seq_eq {l : List Arming} (h : Numbered l) {a b : Arming} (ha : a ∈ l) (hb : b ∈ l)
    (hs : a.seq = b.seq) : a = b :=
  List.inj_on_of_nodup_map h ha hb hs

end Arming

namespace Timers

open Arming

variable {κ : Type}

theorem live_iff (slots : Table Nat (TimerSlot κ)) (a : Arming) :
    live slots a = true ↔ ∃ s, slots.get? a.id = some s ∧ s.seq = a.seq := by
  simp only [live]
  split
  · next s hs => simp [hs]
  · next hs => simp [hs]

/-- The entry that an armed timer has in the ordered list. -/
def entryOf (id : Nat) (s : TimerSlot κ) : Arming := ⟨s.deadline, s.seq, id⟩

/-- What holds of a set of timers in which some timers wait for their new entry. -/
structure Sound (m : Timers κ) (waiting : List Nat) : Prop where
  distinct : m.slots.Distinct
  sorted : Sorted m.heap
  numbered : Numbered m.heap
  bounded : ∀ a ∈ m.heap, a.seq ≤ m.lastSeq
  queued : ∀ id s, m.slots.get? id = some s → id ∉ waiting → entryOf id s ∈ m.heap

theorem sound_empty : (empty : Timers κ).Sound [] where
  distinct := Table.distinct_empty
  sorted := .nil
  numbered := List.nodup_nil
  bounded := by simp [empty]
  queued := by simp [empty]

/-- An entry that is live is the one of its timer. -/
theorem Sound.entry_of_live {m : Timers κ} (h : m.Sound []) {a : Arming} (ha : a ∈ m.heap)
    {s : TimerSlot κ} (hs : m.slots.get? a.id = some s) (hseq : s.seq = a.seq) :
    a = entryOf a.id s :=
  eq_of_seq_eq h.numbered ha (h.queued a.id s hs (List.not_mem_nil)) hseq.symm

/-- Arming a timer adds its entry and ends its wait for one. -/
theorem Sound.arm {m : Timers κ} {waiting left : List Nat} (h : m.Sound waiting) (id : Nat)
    (deadline : Instant) {slots : Table Nat (TimerSlot κ)} (hd : slots.Distinct)
    (hself : ∀ s, slots.get? id = some s → s.seq = m.lastSeq + 1 ∧ s.deadline = deadline)
    (hother : ∀ j, j ≠ id → slots.get? j = m.slots.get? j)
    (hleft : ∀ j ∈ waiting, j ≠ id → j ∈ left) :
    Sound { m.arm id deadline with slots := slots } left := by
  have hfresh : ∀ b ∈ m.heap, (⟨deadline, m.lastSeq + 1, id⟩ : Arming).seq ≠ b.seq := by
    intro b hb
    have := h.bounded b hb
    simp only
    omega
  refine ⟨hd, insert_sorted h.sorted hfresh, insert_numbered h.numbered hfresh, ?_, ?_⟩
  · intro a ha
    simp only [Timers.arm]
    rcases mem_insert.mp ha with rfl | ha
    · exact Nat.le_refl _
    · have := h.bounded a ha
      omega
  · intro j s hs hj
    refine mem_insert.mpr ?_
    by_cases hji : j = id
    · subst hji
      obtain ⟨hseq, hdl⟩ := hself s hs
      simp [entryOf, hseq, hdl]
    · refine .inr (h.queued j s ((hother j hji).symm.trans hs) ?_)
      intro hw
      exact hj (hleft j hw hji)

/-- Entries may go as long as those of the armed timers that do not wait stay. -/
theorem Sound.thin {m : Timers κ} {waiting left : List Nat} (h : m.Sound waiting)
    {heap : List Arming} {slots : Table Nat (TimerSlot κ)} (hd : slots.Distinct)
    (hsub : heap.Sublist m.heap)
    (hkeep : ∀ id s, slots.get? id = some s → id ∉ left → entryOf id s ∈ heap) :
    Sound { m with heap := heap, slots := slots } left :=
  ⟨hd, h.sorted.sublist hsub, (hsub.map _).nodup h.numbered,
    fun a ha => h.bounded a (hsub.subset ha), hkeep⟩

theorem live_entryOf {slots : Table Nat (TimerSlot κ)} {id : Nat} {s : TimerSlot κ}
    (hs : slots.get? id = some s) : live slots (entryOf id s) = true :=
  (live_iff slots _).mpr ⟨s, hs, rfl⟩

theorem Sound.compact {m : Timers κ} {waiting : List Nat} (h : m.Sound waiting) :
    m.compact.Sound waiting := by
  unfold Timers.compact
  split
  · refine h.thin h.distinct List.filter_sublist ?_
    intro id s hs hw
    exact List.mem_filter.mpr ⟨h.queued id s hs hw, live_entryOf hs⟩
  · exact h

/-- A live entry survives the removal of the dead ones at the front. -/
theorem mem_dropWhile_dead {slots : Table Nat (TimerSlot κ)} {heap : List Arming} {a : Arming}
    (ha : a ∈ heap) (hl : live slots a = true) :
    a ∈ heap.dropWhile fun b => !live slots b := by
  induction heap with
  | nil => exact absurd ha List.not_mem_nil
  | cons b heap ih =>
    rw [List.dropWhile_cons]
    split
    · next hb =>
      rcases List.mem_cons.mp ha with rfl | ha
      · simp [hl] at hb
      · exact ih ha
    · exact ha

theorem Sound.pruneFront {m : Timers κ} {waiting : List Nat} (h : m.Sound waiting) :
    m.pruneFront.Sound waiting := by
  refine h.thin h.distinct (List.dropWhile_sublist _) ?_
  intro id s hs hw
  exact mem_dropWhile_dead (h.queued id s hs hw) (live_entryOf hs)

theorem Sound.frontWake {m : Timers κ} {waiting : List Nat} (h : m.Sound waiting) (seq : Nat) :
    (m.frontWake seq).1.Sound waiting := by
  unfold Timers.frontWake
  split
  · exact ⟨h.distinct, h.sorted, h.numbered, h.bounded, h.queued⟩
  · exact h

/-- Disarming a timer leaves its entry behind as a dead one. -/
theorem Sound.erase {m : Timers κ} {waiting : List Nat} (h : m.Sound waiting) (id : Nat) :
    Sound { m with slots := m.slots.erase id } waiting := by
  refine h.thin (Table.distinct_erase h.distinct id) (List.Sublist.refl _) ?_
  intro j s hs hw
  rw [Table.get?_erase] at hs
  split at hs
  · exact absurd hs (by simp)
  · exact h.queued j s hs hw

end Timers

end Fibers
