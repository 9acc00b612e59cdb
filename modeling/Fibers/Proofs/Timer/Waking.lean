import Fibers.Proofs.Timer.Refinement

/-!
Wakes for timers that come to the front. Whoever waits for timers asks for the earliest deadline,
waits no longer than that and relies on being told of every timer armed meanwhile that is due
earlier. A new arming is compared with the first entry of the list only, which may be dead; one wake
stands for all until the next question; and an expiry arms recurring timers anew without any wake.

What makes this enough is that, until a wake is sent, no entry of the list, dead or live, is earlier
than the deadline that was last asked for.
-/

namespace Fibers.Timers

open Arming

variable {κ : Type}

/-- The earliest deadline of the armed timers. -/
def earliest (m : Timers κ) : Option Instant := (m.slots.entries.map fun e => e.2.deadline).min?

/-- Whether an attempt to arm a timer anew runs the hook for a new front. -/
def Rearmed.wakes : Rearmed → Bool
  | .armed wake => wake
  | .absent | .unchanged | .overflow => false

/-- Whether a call runs the hook for a new front. -/
def wakes (m : Timers κ) (now : Instant) : Call κ → Bool
  | .add delay callback recurring => (m.add now delay callback recurring).2.any (·.2)
  | .refresh timer => (m.refresh now timer).2.wakes
  | .reset timer interval fromNow => (m.reset now timer interval fromNow).2.wakes
  | .cancel _ | .isArmed _ | .next | .expire | .hasTimer | .size => false

/-- A set of timers under the eyes of somebody who waits for them. -/
structure Watch (κ : Type) where
  timers : Timers κ
  /-- The earliest deadline when the next one was last asked for, if a timer was armed then. -/
  bound : Option Instant
  /-- How often the hook for a new front ran since then. -/
  rung : Nat

namespace Watch

def empty : Watch κ := ⟨.empty, none, 0⟩

def call (w : Watch κ) (now : Instant) (c : Call κ) : Watch κ :=
  let timers := (w.timers.call now c).1
  match c with
  | .next => ⟨timers, w.timers.earliest, 0⟩
  | _ => ⟨timers, w.bound, w.rung + (w.timers.wakes now c).toNat⟩

/-- Makes calls one after the other, each at its own reading of the clock. -/
def calls (w : Watch κ) : List (Instant × Call κ) → Watch κ
  | [] => w
  | (now, c) :: cs => (w.call now c).calls cs

end Watch

/-- Some deadline was asked for, and `d` is not before it. -/
def Covers (bound : Option Instant) (d : Instant) : Prop := ∃ b, bound = some b ∧ b ≤ d

/-- Until a wake is sent, no entry is earlier than the bound. -/
def Behind (bound : Option Instant) (m : Timers κ) : Prop :=
  m.tickled = false → ∀ a ∈ m.heap, Covers bound a.deadline

variable {m : Timers κ} {l : Ledger κ} {bound : Option Instant}

theorem Covers.trans {d e : Instant} (h : Covers bound d) (hde : d ≤ e) : Covers bound e := by
  obtain ⟨b, hb, hbd⟩ := h
  exact ⟨b, hb, Nat.le_trans hbd hde⟩

theorem frontWake_heap (m : Timers κ) (seq : Nat) : (m.frontWake seq).1.heap = m.heap := by
  simp only [Timers.frontWake]
  split <;> rfl

theorem compact_heap (m : Timers κ) : m.compact.heap ⊆ m.heap := by
  simp only [Timers.compact]
  split
  · exact List.filter_subset_self ..
  · exact fun _ h => h

theorem compact_tickled (m : Timers κ) : m.compact.tickled = m.tickled := by
  simp only [Timers.compact]
  split <;> rfl

/-- A wake is asked for exactly when the flag goes up. -/
theorem frontWake_tickled (m : Timers κ) (seq : Nat) :
    (m.frontWake seq).1.tickled.toNat = m.tickled.toNat + (m.frontWake seq).2.toNat := by
  simp only [Timers.frontWake]
  split
  · next h =>
    have calm : m.tickled = false := by simpa using (Bool.and_eq_true_iff.mp h).2
    simp [calm]
  · rfl

theorem Behind.thin {m' : Timers κ} (h : Behind bound m) (hheap : m'.heap ⊆ m.heap)
    (hflag : m'.tickled = m.tickled) : Behind bound m' := by
  intro calm a ha
  exact h (hflag ▸ calm) a (hheap ha)

/-- A new entry that is not the first one is behind the first one. -/
theorem Behind.frontWake {seq : Nat} (hsort : Sorted m.heap)
    (h : m.tickled = false → ∀ a ∈ m.heap, a.seq ≠ seq → Covers bound a.deadline) :
    Behind bound (m.frontWake seq).1 := by
  simp only [Timers.frontWake]
  split
  · intro calm
    simp at calm
  · next quiet =>
    intro calm a ha
    have other : m.isFront seq = false := by
      by_contra front
      exact quiet (by simp_all)
    by_cases hseq : a.seq = seq
    · cases hheap : m.heap with
      | nil => simp [hheap] at ha
      | cons b rest =>
        have hb : b.seq ≠ seq := by simpa [isFront, hheap] using other
        have first : Covers bound b.deadline := h calm b (by simp [hheap]) hb
        rw [hheap] at ha hsort
        rcases List.mem_cons.mp ha with rfl | ha
        · exact first
        · exact first.trans (before_deadline_le ((List.pairwise_cons.mp hsort).1 a ha))
    · exact h calm a ha hseq

theorem add_behind (h : Behind bound m) (now : Instant) (delay : Duration) (callback : κ)
    (recurring : Bool) (hsort : Sorted (m.add now delay callback recurring).1.heap) :
    let res := m.add now delay callback recurring
    Behind bound res.1 ∧ res.1.tickled.toNat = m.tickled.toNat + (res.2.any (·.2)).toNat := by
  simp only [Timers.add] at hsort ⊢
  cases hadd : now.add? delay with
  | none => exact ⟨h.thin (List.Subset.refl _) rfl, rfl⟩
  | some deadline =>
    simp only [hadd] at hsort ⊢
    refine ⟨Behind.frontWake ?_ ?_, frontWake_tickled ..⟩
    · rwa [frontWake_heap] at hsort
    · intro calm a ha hseq
      rcases mem_insert.mp ha with rfl | ha
      · exact absurd rfl hseq
      · exact h calm a ha

theorem rearm_behind (h : Behind bound m) (id : Nat) (slot : TimerSlot κ) (start : Instant)
    (interval : Duration) (hsort : Sorted (m.rearm id slot start interval).1.heap) :
    let res := m.rearm id slot start interval
    Behind bound res.1 ∧ res.1.tickled.toNat = m.tickled.toNat + res.2.wakes.toNat := by
  simp only [Timers.rearm] at hsort ⊢
  cases hadd : start.add? interval with
  | none => exact ⟨h, rfl⟩
  | some deadline =>
    simp only [hadd] at hsort ⊢
    refine ⟨Behind.frontWake ?_ ?_, ?_⟩
    · rwa [frontWake_heap] at hsort
    · intro calm a ha hseq
      rw [compact_tickled] at calm
      rcases mem_insert.mp (compact_heap _ ha) with rfl | ha
      · exact absurd rfl hseq
      · exact h calm a ha
    · rw [frontWake_tickled, compact_tickled]
      rfl

theorem refresh_behind (h : Behind bound m) (now : Instant) (id : Nat)
    (hsort : Sorted (m.refresh now id).1.heap) :
    let res := m.refresh now id
    Behind bound res.1 ∧ res.1.tickled.toNat = m.tickled.toNat + res.2.wakes.toNat := by
  simp only [Timers.refresh] at hsort ⊢
  cases hs : m.slots.get? id with
  | none => exact ⟨h, rfl⟩
  | some slot =>
    simp only [hs] at hsort ⊢
    exact rearm_behind h id slot now slot.interval hsort

theorem reset_behind (h : Behind bound m) (now : Instant) (id : Nat) (interval : Duration)
    (fromNow : Bool) (hsort : Sorted (m.reset now id interval fromNow).1.heap) :
    let res := m.reset now id interval fromNow
    Behind bound res.1 ∧ res.1.tickled.toNat = m.tickled.toNat + res.2.wakes.toNat := by
  simp only [Timers.reset] at hsort ⊢
  cases hs : m.slots.get? id with
  | none => exact ⟨h, rfl⟩
  | some slot =>
    simp only [hs] at hsort ⊢
    split at hsort
    · next same =>
      rw [if_pos same]
      exact ⟨h, rfl⟩
    · next other =>
      rw [if_neg other]
      exact rearm_behind h id slot _ interval hsort

theorem cancel_behind (h : Behind bound m) (id : Nat) :
    Behind bound (m.cancel id).1 ∧ (m.cancel id).1.tickled = m.tickled := by
  simp only [Timers.cancel]
  cases m.slots.get? id with
  | none => exact ⟨h, rfl⟩
  | some slot => exact ⟨h.thin (compact_heap _) (compact_tickled _), compact_tickled _⟩

/-- Taking the due entries leaves some of them; a recurring timer among them had a due entry. -/
theorem takeDue_taken (now : Instant) (heap : List Arming) (slots : Table Nat (TimerSlot κ)) :
    (takeDue now heap slots).heap ⊆ heap ∧
      ((takeDue now heap slots).recurring ≠ [] → ∃ a ∈ heap, a.deadline ≤ now) := by
  fun_induction takeDue now heap slots with
  | case1 => simp
  | case2 slots a rest later => simp
  | case3 slots a rest due missing ih | case4 slots a rest due slot found dead ih
  | case6 slots a rest due slot found live shot left ih =>
    constructor
    · exact List.subset_cons_of_subset _ ih.1
    · intro some
      obtain ⟨b, hb, hnow⟩ := ih.2 some
      exact ⟨b, List.mem_cons_of_mem _ hb, hnow⟩
  | case5 slots a rest due slot found live again left ih =>
    constructor
    · exact List.subset_cons_of_subset _ ih.1
    · intro _
      exact ⟨_, List.mem_cons_self .., Nat.le_of_not_lt (by assumption)⟩

/-- Arming recurring timers anew adds entries that are not before now. -/
theorem rearmDue_added (now : Instant) (es : List (Nat × Duration)) (m : Timers κ) :
    (rearmDue now es m).1.tickled = m.tickled ∧
      ∀ a ∈ (rearmDue now es m).1.heap, a ∈ m.heap ∨ es ≠ [] ∧ now ≤ a.deadline := by
  induction es generalizing m with
  | nil => exact ⟨rfl, fun a ha => .inl ha⟩
  | cons e es ih =>
    simp only [rearmDue]
    cases hadd : now.add? e.2 with
    | none => exact ⟨rfl, fun a ha => .inl ha⟩
    | some deadline =>
      obtain ⟨flag, added⟩ := ih { m.arm e.1 deadline with
        slots := m.slots.modify e.1 fun s => { s with seq := m.lastSeq + 1, deadline := deadline } }
      refine ⟨flag, ?_⟩
      intro a ha
      rcases added a ha with ha | ⟨-, ha⟩
      · rcases mem_insert.mp ha with rfl | ha
        · rw [Instant.eq_of_add? hadd]
          exact .inr ⟨by simp, Nat.le_add_right ..⟩
        · exact .inl ha
      · exact .inr ⟨by simp, ha⟩

/-- A timer that an expiry arms anew had an entry that is not after the new one. -/
theorem expire_behind (h : Behind bound m) (now : Instant) :
    Behind bound (m.expire now).1 ∧ (m.expire now).1.tickled = m.tickled := by
  simp only [Timers.expire]
  split
  · refine ⟨?_, rfl⟩
    intro _ a ha
    simp at ha
  · obtain ⟨left, due⟩ := takeDue_taken now m.heap m.slots
    generalize takeDue now m.heap m.slots = taken at left due
    obtain ⟨flag, added⟩ := rearmDue_added now taken.recurring
      { m with heap := taken.heap, slots := taken.slots }
    have behind : Behind bound (rearmDue now taken.recurring
        { m with heap := taken.heap, slots := taken.slots }).1 := by
      intro calm a ha
      rw [flag] at calm
      rcases added a ha with ha | ⟨some, later⟩
      · exact h calm a (left ha)
      · obtain ⟨b, hb, hnow⟩ := due some
        exact (h calm b hb).trans (Nat.le_trans hnow later)
    split
    · next hre =>
      rw [hre] at behind flag
      exact ⟨behind, flag⟩
    · next hre =>
      rw [hre] at behind flag
      exact ⟨behind, flag⟩

/-- A least element depends on nothing but the members. -/
theorem min?_congr {a b : List Instant} (h : ∀ d, d ∈ a ↔ d ∈ b) : a.min? = b.min? := by
  cases hb : b.min? with
  | none =>
    rw [List.min?_eq_none_iff] at hb ⊢
    rw [List.eq_nil_iff_forall_not_mem]
    intro d hd
    simpa [hb] using (h d).mp hd
  | some d =>
    obtain ⟨mem, least⟩ := List.min?_eq_some_iff.mp hb
    exact List.min?_eq_some_iff.mpr ⟨(h d).mpr mem, fun e he => least e ((h e).mp he)⟩

/-- A set of timers and its record have the same earliest deadline. -/
theorem Agree.earliest_eq (h : Agree m l) :
    m.earliest = (l.plans.entries.map fun e => e.2.deadline).min? := by
  refine min?_congr fun d => ?_
  simp only [List.mem_map]
  constructor
  · rintro ⟨⟨id, s⟩, hs, rfl⟩
    have view := h.view id
    rw [(Table.mem_entries_iff h.sound.distinct ..).mp hs] at view
    obtain ⟨p, hp, rfl⟩ := Option.map_eq_some_iff.mp view.symm
    exact ⟨(id, p), Table.mem_of_get? hp, rfl⟩
  · rintro ⟨⟨id, p⟩, hp, rfl⟩
    have slot := h.slot_eq (Table.get?_of_mem h.distinct hp)
    exact ⟨(id, p.slot), Table.mem_of_get? slot, rfl⟩

theorem earliest_le {id : Nat} {s : TimerSlot κ} (there : m.slots.get? id = some s) :
    ∃ d, m.earliest = some d ∧ d ≤ s.deadline := by
  have mem : s.deadline ∈ m.slots.entries.map fun e => e.2.deadline :=
    List.mem_map.mpr ⟨(id, s), Table.mem_of_get? there, rfl⟩
  cases first : m.earliest with
  | none =>
    rw [List.min?_eq_none_iff.mp first] at mem
    cases mem
  | some d => exact ⟨d, rfl, (List.min?_eq_some_iff.mp first).2 _ mem⟩

/-- Once the dead entries at the front are gone, the first entry has the earliest deadline. -/
theorem next_behind (h : Agree m l) (now : Instant) : Behind m.earliest (m.next now).1 := by
  have hsort : Sorted m.pruneFront.heap := h.sound.pruneFront.sorted
  have least := front_deadline h
  rw [← h.earliest_eq] at least
  intro _ a ha
  have ha : a ∈ m.pruneFront.heap := ha
  cases hheap : m.pruneFront.heap with
  | nil => simp [hheap] at ha
  | cons b rest =>
    rw [hheap] at ha hsort least
    refine ⟨b.deadline, least.symm, ?_⟩
    rcases List.mem_cons.mp ha with rfl | ha
    · exact Nat.le_refl _
    · exact before_deadline_le ((List.pairwise_cons.mp hsort).1 a ha)

/-- The answer to the question for the next deadline is the time to the earliest one. -/
theorem next_answer (h : Agree m l) (now : Instant) :
    (m.call now .next).2 = .wait (m.earliest.map fun d => Instant.since d now) := by
  rw [(next_agree h now).1, h.earliest_eq]
  rfl

namespace Watch

variable {w : Watch κ}

/-- What holds of a watched set of timers and the record of its armed ones. -/
structure Alert (w : Watch κ) (l : Ledger κ) : Prop where
  agree : Agree w.timers l
  behind : Behind w.bound w.timers
  /-- The flag counts the wakes: there was none, or one. -/
  counted : w.rung = w.timers.tickled.toNat

theorem call_timers (w : Watch κ) (now : Instant) (c : Call κ) :
    (w.call now c).timers = (w.timers.call now c).1 := by
  cases c <;> rfl

theorem Alert.call (h : w.Alert l) (now : Instant) (c : Call κ)
    (ho : (w.timers.call now c).2 ≠ .overflow) : (w.call now c).Alert (l.call now c).1 := by
  have agree := (call_agree h.agree now c ho).2
  have sorted := agree.sound.sorted
  suffices kept : Behind (w.call now c).bound (w.call now c).timers ∧
      (w.call now c).rung = (w.call now c).timers.tickled.toNat from
    ⟨call_timers w now c ▸ agree, kept.1, kept.2⟩
  cases c with
  | add delay callback recurring =>
    have kept := add_behind h.behind now delay callback recurring
    simp only [Watch.call, Timers.call, wakes, h.counted] at sorted ⊢
    cases hadd : w.timers.add now delay callback recurring with
    | mk m res =>
      cases res <;> simp_all
  | cancel timer =>
    obtain ⟨behind, flag⟩ := cancel_behind h.behind timer
    exact ⟨behind, by simp [Watch.call, Timers.call, wakes, h.counted, flag]⟩
  | refresh timer =>
    obtain ⟨behind, flag⟩ := refresh_behind h.behind now timer sorted
    exact ⟨behind, by simp [Watch.call, Timers.call, wakes, h.counted, flag]⟩
  | reset timer interval fromNow =>
    obtain ⟨behind, flag⟩ := reset_behind h.behind now timer interval fromNow sorted
    exact ⟨behind, by simp [Watch.call, Timers.call, wakes, h.counted, flag]⟩
  | next => exact ⟨next_behind h.agree now, rfl⟩
  | expire =>
    obtain ⟨behind, flag⟩ := expire_behind h.behind now
    exact ⟨behind, by simp [Watch.call, Timers.call, wakes, h.counted, flag]⟩
  | isArmed | hasTimer | size => exact ⟨h.behind, h.counted⟩

theorem Alert.calls (cs : List (Instant × Call κ)) (h : w.Alert l)
    (ho : Answer.overflow ∉ w.timers.answers cs) : ∃ l', (w.calls cs).Alert l' := by
  induction cs generalizing w l with
  | nil => exact ⟨l, h⟩
  | cons c cs ih =>
    obtain ⟨now, c⟩ := c
    simp only [Timers.answers, List.mem_cons, not_or] at ho
    refine ih (h.call now c (Ne.symm ho.1)) ?_
    rw [call_timers]
    exact ho.2

end Watch

end Fibers.Timers
