import Fibers.Proofs.Timer.Agree
import Mathlib.Data.List.Sort

/-!
Expiry, on a set of timers and on its record. The live due entries of the ordered list, taken from
the front, are the due timers of the record in the order into which the record sorts them; and
arming the recurring ones anew hands out the same numbers on both sides.
-/

namespace Fibers.Timers

open Arming

variable {κ : Type}

/-- The timer for which an entry is live, with its slot. -/
def current (slots : Table Nat (TimerSlot κ)) (a : Arming) : Option (Nat × TimerSlot κ) :=
  (slots.get? a.id).bind fun s => if s.seq = a.seq then some (a.id, s) else none

/-- The timers whose live entry is due, in the order of the entries. -/
def dueOf (now : Instant) (heap : List Arming) (slots : Table Nat (TimerSlot κ)) :
    List (Nat × TimerSlot κ) :=
  (heap.filter fun a => decide (a.deadline ≤ now)).filterMap (current slots)

theorem current_eq_some_iff {slots : Table Nat (TimerSlot κ)} {a : Arming}
    {e : Nat × TimerSlot κ} :
    current slots a = some e ↔ slots.get? a.id = some e.2 ∧ e.2.seq = a.seq ∧ e.1 = a.id := by
  simp only [current, Option.bind_eq_some_iff]
  constructor
  · rintro ⟨s, hs, he⟩
    split at he
    · next hseq =>
      obtain rfl := Option.some.inj he
      exact ⟨hs, hseq, rfl⟩
    · exact absurd he (by simp)
  · rintro ⟨hs, hseq, hid⟩
    exact ⟨e.2, hs, by rw [if_pos hseq, ← hid]⟩

/-- Where one timer has gone, the entries with other numbers mean what they meant. -/
theorem current_erase {slots : Table Nat (TimerSlot κ)} {a b : Arming} {s : TimerSlot κ}
    (ha : slots.get? a.id = some s) (hs : s.seq = a.seq) (hne : a.seq ≠ b.seq) :
    current (slots.erase a.id) b = current slots b := by
  simp only [current, Table.get?_erase]
  split
  · next hid =>
    have hdead : ¬ s.seq = b.seq := fun h => hne (hs.symm.trans h)
    rw [hid, ha]
    simp [hdead]
  · rfl

/-- What taking the due entries leaves and answers. -/
theorem takeDue_eq (now : Instant) (heap : List Arming) (slots : Table Nat (TimerSlot κ))
    (hsort : Sorted heap) (hnum : Numbered heap) :
    takeDue now heap slots =
      { heap := heap.filter fun a => decide (now < a.deadline)
        slots := ((dueOf now heap slots).filter fun e => !e.2.recurring).foldl
          (fun t e => t.erase e.1) slots
        callbacks := (dueOf now heap slots).map fun e => (e.2.callback, e.2.recurring)
        recurring := ((dueOf now heap slots).filter fun e => e.2.recurring).map
          fun e => (e.1, e.2.interval) } := by
  induction heap generalizing slots with
  | nil => rfl
  | cons a rest ih =>
    obtain ⟨hbefore, hsort⟩ := List.pairwise_cons.mp hsort
    obtain ⟨hfresh, hnum⟩ := List.nodup_cons.mp hnum
    unfold takeDue
    by_cases hlater : now < a.deadline
    · -- The list is in order, so nothing behind an entry that is not due is due.
      have hall : ∀ b ∈ a :: rest, now < b.deadline := by
        intro b hb
        rcases List.mem_cons.mp hb with rfl | hb
        · exact hlater
        · exact Nat.lt_of_lt_of_le hlater (before_deadline_le (hbefore b hb))
      have hnone : (a :: rest).filter (fun a => decide (a.deadline ≤ now)) = [] := by
        rw [List.filter_eq_nil_iff]
        intro b hb
        simpa using hall b hb
      have hkept : (a :: rest).filter (fun a => decide (now < a.deadline)) = a :: rest :=
        List.filter_eq_self.mpr fun b hb => by simpa using hall b hb
      simp only [hlater, ↓reduceIte, dueOf, hnone, hkept, List.filterMap_nil, List.filter_nil,
        List.map_nil, List.foldl_nil]
    · have hdue : a.deadline ≤ now := Nat.le_of_not_lt hlater
      have hcons : dueOf now (a :: rest) slots =
          (current slots a).toList ++ dueOf now rest slots := by
        simp only [dueOf, List.filter_cons, hdue, decide_true, ↓reduceIte, List.filterMap_cons]
        cases current slots a <;> rfl
      have hkept : (a :: rest).filter (fun a => decide (now < a.deadline)) =
          rest.filter fun a => decide (now < a.deadline) := by
        simp [hlater]
      simp only [hlater, ↓reduceIte, hkept, hcons]
      cases hs : slots.get? a.id with
      | none =>
        have hcur : current slots a = none := by simp [current, hs]
        simpa [hcur] using ih slots hsort hnum
      | some s =>
        by_cases hseq : s.seq = a.seq
        · have hcur : current slots a = some (a.id, s) := by simp [current, hs, hseq]
          have hrest : dueOf now rest (slots.erase a.id) = dueOf now rest slots := by
            refine List.filterMap_congr fun b hb => current_erase hs hseq fun hab => hfresh ?_
            exact List.mem_map.mpr ⟨b, (List.mem_filter.mp hb).1, hab.symm⟩
          cases hrec : s.recurring with
          | true => simp [hcur, hseq, hrec, ih slots hsort hnum]
          | false => simp [hcur, hseq, hrec, ih (slots.erase a.id) hsort hnum, hrest]
        · have hcur : current slots a = none := by simp [current, hs, hseq]
          simpa [hcur, hseq] using ih slots hsort hnum

theorem mem_dueOf {m : Timers κ} (h : m.Sound []) (now : Instant) (e : Nat × TimerSlot κ) :
    e ∈ dueOf now m.heap m.slots ↔ m.slots.get? e.1 = some e.2 ∧ e.2.deadline ≤ now := by
  simp only [dueOf, List.mem_filterMap, List.mem_filter, decide_eq_true_eq, current_eq_some_iff]
  constructor
  · rintro ⟨a, ⟨ha, hd⟩, hs, hseq, hid⟩
    have hentry := h.entry_of_live ha hs hseq
    rw [hentry] at hd
    exact ⟨hid ▸ hs, hd⟩
  · rintro ⟨hs, hd⟩
    exact ⟨entryOf e.1 e.2, ⟨h.queued _ _ hs List.not_mem_nil, hd⟩, hs, rfl, rfl⟩

/-- The due timers stand in the order of their entries. -/
theorem dueOf_sorted {m : Timers κ} (h : m.Sound []) (now : Instant) :
    (dueOf now m.heap m.slots).Pairwise fun e f =>
      (entryOf e.1 e.2).before (entryOf f.1 f.2) = true := by
  refine List.pairwise_filterMap.mpr ((h.sorted.filter _).imp_of_mem ?_)
  intro a b ha hb hab e he f hf
  obtain ⟨hs, hseq, hid⟩ := current_eq_some_iff.mp he
  obtain ⟨hs', hseq', hid'⟩ := current_eq_some_iff.mp hf
  rw [hid, hid', ← h.entry_of_live (List.mem_filter.mp ha).1 hs hseq,
    ← h.entry_of_live (List.mem_filter.mp hb).1 hs' hseq']
  exact hab

theorem before_irrefl (a : Arming) : ¬ a.before a = true := by
  rw [before_iff]
  simp

theorem Plan.upTo_iff (p q : Plan κ) :
    p.upTo q = true ↔ p.deadline < q.deadline ∨ p.deadline = q.deadline ∧ p.number ≤ q.number := by
  simp [Plan.upTo]

theorem due_perm (l : Ledger κ) (now : Instant) :
    (l.due now).Perm (l.plans.entries.filter fun e => e.2.deadline ≤ now) :=
  List.mergeSort_perm ..

theorem mem_due {m : Timers κ} {l : Ledger κ} (h : Matches m l) (now : Instant)
    (e : Nat × Plan κ) :
    e ∈ l.due now ↔ l.plans.get? e.1 = some e.2 ∧ e.2.deadline ≤ now := by
  rw [(due_perm l now).mem_iff, List.mem_filter, decide_eq_true_eq,
    ← Table.mem_entries_iff h.distinct]

/-- Each due timer is listed once. -/
theorem due_ids_nodup {m : Timers κ} {l : Ledger κ} (h : Matches m l) (now : Instant) :
    ((l.due now).map (·.1)).Nodup := by
  rw [((due_perm l now).map _).nodup_iff]
  exact (List.filter_sublist.map _).nodup h.distinct

/-- The record sorts the due timers strictly: no two have the same number. -/
theorem due_sorted {m : Timers κ} {l : Ledger κ} (h : Agree m l) (now : Instant) :
    (l.due now).Pairwise fun e f =>
      (entryOf e.1 e.2.slot).before (entryOf f.1 f.2.slot) = true := by
  have hsort : (l.due now).Pairwise fun e f => e.2.upTo f.2 = true := by
    refine List.pairwise_mergeSort ?_ ?_ _
    · intro a b c hab hbc
      rw [Plan.upTo_iff] at *
      unfold Instant at *
      omega
    · intro a b
      rw [Bool.or_eq_true, Plan.upTo_iff, Plan.upTo_iff]
      unfold Instant at *
      omega
  have hids : (l.due now).Pairwise fun e f => e.1 ≠ f.1 :=
    List.pairwise_map.mp (due_ids_nodup h.toMatches now)
  refine (hsort.and hids).imp_of_mem ?_
  intro e f he hf hef
  have hne : e.2.number ≠ f.2.number := fun hn =>
    hef.2 (h.id_eq_of_number_eq ((mem_due h.toMatches now e).mp he).1
      ((mem_due h.toMatches now f).mp hf).1 hn)
  have hup := (Plan.upTo_iff _ _).mp hef.1
  rw [before_iff]
  simp only [entryOf, Plan.slot]
  unfold Instant at *
  omega

/-- The due timers of a set are those of its record, in the same order. -/
theorem dueOf_eq {m : Timers κ} {l : Ledger κ} (h : Agree m l) (now : Instant) :
    dueOf now m.heap m.slots = (l.due now).map fun e => (e.1, e.2.slot) := by
  have hsorted := dueOf_sorted h.sound now
  have hsorted' : ((l.due now).map fun e => (e.1, e.2.slot)).Pairwise fun e f =>
      (entryOf e.1 e.2).before (entryOf f.1 f.2) = true :=
    List.pairwise_map.mpr (due_sorted h now)
  have hne : ∀ {e f : Nat × TimerSlot κ},
      (entryOf e.1 e.2).before (entryOf f.1 f.2) = true → e ≠ f := by
    rintro e f hef rfl
    exact before_irrefl _ hef
  refine List.Perm.eq_of_pairwise ?_ hsorted hsorted' ?_
  · intro e f _ _ hef hfe
    exact absurd (before_trans hef hfe) (before_irrefl _)
  · rw [List.perm_ext_iff_of_nodup (hsorted.imp hne) (hsorted'.imp hne)]
    intro e
    rw [mem_dueOf h.sound, List.mem_map, h.view]
    constructor
    · rintro ⟨hs, hd⟩
      obtain ⟨p, hp, he⟩ := Option.map_eq_some_iff.mp hs
      have hdue : p.deadline ≤ now := by rwa [← he] at hd
      exact ⟨(e.1, p), (mem_due h.toMatches now _).mpr ⟨hp, hdue⟩, by rw [he]⟩
    · rintro ⟨f, hf, rfl⟩
      obtain ⟨hp, hd⟩ := (mem_due h.toMatches now f).mp hf
      exact ⟨by rw [hp, Option.map_some], hd⟩

/-- The one-shot timers go on both sides. -/
theorem without_view {m : Timers κ} {l : Ledger κ} (h : Matches m l) (es : List (Nat × Plan κ)) :
    Matches
      { m with slots := (es.map fun e => (e.1, e.2.slot)).foldl (fun t e => t.erase e.1) m.slots }
      (l.without es) := by
  induction es generalizing m l with
  | nil => exact h
  | cons e es ih =>
    refine ih (m := { m with slots := m.slots.erase e.1 })
      (l := { l with plans := l.plans.erase e.1 })
      ⟨Table.distinct_erase h.distinct e.1, ?_, h.lastId, h.lastSeq⟩
    intro j
    simp only [Table.get?_erase]
    split
    · rfl
    · exact h.view j

theorem get?_foldl_erase {β : Type} (es : List (Nat × β)) (t : Table Nat β) (id : Nat) :
    (es.foldl (fun t e => t.erase e.1) t).get? id =
      if id ∈ es.map (·.1) then none else t.get? id := by
  induction es generalizing t with
  | nil => simp
  | cons e es ih =>
    rw [List.foldl_cons, ih, Table.get?_erase]
    have hmem : id ∈ (e :: es).map (·.1) ↔ id = e.1 ∨ id ∈ es.map (·.1) := by
      rw [List.map_cons, List.mem_cons]
    by_cases hid : id = e.1
    · simp [hid]
    · simp only [hid, hmem, false_or, ↓reduceIte]

theorem distinct_foldl_erase {β : Type} (es : List (Nat × β)) {t : Table Nat β} (h : t.Distinct) :
    (es.foldl (fun t e => t.erase e.1) t).Distinct := by
  induction es generalizing t with
  | nil => exact h
  | cons e es ih => exact ih (Table.distinct_erase h e.1)

/-- Recurring timers are armed anew in the same order, under the same numbers, on both sides. -/
theorem rearmDue_agree (now : Instant) (es : List (Nat × Plan κ)) {m : Timers κ} {l : Ledger κ}
    (h : Matches m l) (hsound : m.Sound (es.map (·.1))) (hids : (es.map (·.1)).Nodup)
    (hes : ∀ e ∈ es, l.plans.get? e.1 = some e.2)
    (hfit : ∀ e ∈ es, (now.add? e.2.interval).isSome = true) :
    let res := rearmDue now (es.map fun e => (e.1, e.2.interval)) m
    res.2 = true ∧ Agree res.1 (l.armAll now es) := by
  induction es generalizing m l with
  | nil => exact ⟨rfl, h, hsound⟩
  | cons e es ih =>
    obtain ⟨hfresh, hids⟩ := List.nodup_cons.mp hids
    obtain ⟨deadline, hadd⟩ := Option.isSome_iff_exists.mp (hfit e (List.mem_cons_self ..))
    have hslot := h.slot_eq (hes e (List.mem_cons_self ..))
    -- The slot is changed in place; its view is that of a new arming.
    let slots := m.slots.modify e.1 fun s => { s with seq := m.lastSeq + 1, deadline := deadline }
    have hself : slots.get? e.1 =
        some { e.2 with armedAt := now, number := m.lastSeq + 1 }.slot := by
      rw [Table.get?_modify, if_pos rfl, hslot, Instant.eq_of_add? hadd]
      rfl
    have hother : ∀ j, j ≠ e.1 → slots.get? j = m.slots.get? j := fun j hj => by
      rw [Table.get?_modify, if_neg hj]
    have hview := h.arm e.1 { e.2 with armedAt := now } hself hother
    have hnext : Sound { m.arm e.1 deadline with slots := slots } (es.map (·.1)) := by
      refine hsound.arm e.1 deadline (Table.distinct_modify hsound.distinct _ _) ?_ hother ?_
      · intro s hs
        obtain rfl := Option.some.inj (hself.symm.trans hs)
        exact ⟨rfl, (Instant.eq_of_add? hadd).symm⟩
      · intro j hj hne
        exact (List.mem_cons.mp hj).resolve_left hne
    have hrest : ∀ f ∈ es, (l.arm e.1 { e.2 with armedAt := now }).plans.get? f.1 = some f.2 := by
      intro f hf
      have hne : f.1 ≠ e.1 := fun heq => hfresh (List.mem_map.mpr ⟨f, hf, heq⟩)
      rw [Ledger.arm, Table.get?_put_other _ _ hne]
      exact hes f (List.mem_cons_of_mem _ hf)
    have hdl : ({ e.2 with armedAt := now } : Plan κ).deadline = deadline :=
      (Instant.eq_of_add? hadd).symm
    rw [hdl] at hview
    have hfit' := fun f hf => hfit f (List.mem_cons_of_mem _ hf)
    have hstep := ih hview hnext hids hrest hfit'
    simp only [List.map_cons, rearmDue, hadd]
    exact hstep

theorem rearmDue_overflow (now : Instant) (es : List (Nat × Duration)) (m : Timers κ)
    (h : es.any (fun e => (now.add? e.2).isNone) = true) : (rearmDue now es m).2 = false := by
  induction es generalizing m with
  | nil => exact absurd h (by simp)
  | cons e es ih =>
    simp only [rearmDue]
    cases hadd : now.add? e.2 with
    | none => rfl
    | some deadline =>
      rw [List.any_cons, hadd] at h
      exact ih _ (by simpa using h)

/-- After the due entries were taken, exactly the recurring due timers wait for a new entry. -/
theorem takeDue_sound {m : Timers κ} {l : Ledger κ} (h : Agree m l) (now : Instant) :
    let due := takeDue now m.heap m.slots
    Sound { m with heap := due.heap, slots := due.slots }
      (((l.due now).filter fun e => e.2.recurring).map (·.1)) := by
  rw [takeDue_eq now m.heap m.slots h.sound.sorted h.sound.numbered]
  refine h.sound.thin (distinct_foldl_erase _ h.sound.distinct) List.filter_sublist ?_
  intro id s hs hid
  rw [get?_foldl_erase] at hs
  split at hs
  · exact absurd hs (by simp)
  · next hkept =>
    refine List.mem_filter.mpr ⟨h.sound.queued id s hs List.not_mem_nil, ?_⟩
    -- A due timer is one-shot, and gone, or recurring, and waiting.
    by_contra hnow
    have hdue : s.deadline ≤ now := Nat.le_of_not_lt fun hlt => hnow (decide_eq_true hlt)
    have hmem := (mem_dueOf h.sound now (id, s)).mpr ⟨hs, hdue⟩
    cases hrec : s.recurring with
    | true =>
      rw [dueOf_eq h] at hmem
      obtain ⟨e, he, hes⟩ := List.mem_map.mp hmem
      obtain ⟨rfl, rfl⟩ := Prod.mk.inj hes
      exact hid (List.mem_map.mpr ⟨e, List.mem_filter.mpr ⟨he, hrec⟩, rfl⟩)
    | false =>
      exact hkept (List.mem_map.mpr ⟨(id, s), List.mem_filter.mpr ⟨hmem, by simp [hrec]⟩, rfl⟩)

/-- What the first half of an expiry hands to the second, and what it answers. -/
theorem takeDue_handed {m : Timers κ} {l : Ledger κ} (h : Agree m l) (now : Instant) :
    let due := takeDue now m.heap m.slots
    let recurring := (l.due now).filter fun e => e.2.recurring
    due.recurring = recurring.map (fun e => (e.1, e.2.interval)) ∧
      due.callbacks.map (·.1) = (l.due now).map fun e => e.2.callback := by
  rw [takeDue_eq now m.heap m.slots h.sound.sorted h.sound.numbered, dueOf_eq h]
  simp only [List.filter_map, List.map_map]
  exact ⟨rfl, rfl⟩

/-- What the first half of an expiry leaves is what the record keeps. -/
theorem takeDue_matches {m : Timers κ} {l : Ledger κ} (h : Agree m l) (now : Instant) :
    let due := takeDue now m.heap m.slots
    Matches { m with heap := due.heap, slots := due.slots }
      (l.without ((l.due now).filter fun e => !e.2.recurring)) := by
  have hview := without_view h.toMatches ((l.due now).filter fun e => !e.2.recurring)
  rw [takeDue_eq now m.heap m.slots h.sound.sorted h.sound.numbered, dueOf_eq h]
  simp only [List.filter_map]
  exact hview.congr rfl rfl rfl

/-- The one-shot due timers are no recurring ones. -/
theorem without_keeps {m : Timers κ} {l : Ledger κ} (h : Matches m l) (now : Instant)
    {e : Nat × Plan κ} (he : e ∈ l.due now) (hrec : e.2.recurring = true) :
    (l.without ((l.due now).filter fun e => !e.2.recurring)).plans.get? e.1 = some e.2 := by
  have hp := ((mem_due h now e).mp he).1
  rw [Ledger.without, get?_foldl_erase, if_neg, hp]
  intro hmem
  obtain ⟨f, hf, hid⟩ := List.mem_map.mp hmem
  obtain ⟨hdue, hshot⟩ := List.mem_filter.mp hf
  have hq := ((mem_due h now f).mp hdue).1
  rw [hid, hp] at hq
  rw [← Option.some.inj hq, hrec] at hshot
  exact absurd hshot (by simp)

theorem expire_agree {m : Timers κ} {l : Ledger κ} (h : Agree m l) (now : Instant)
    (ho : (m.call now .expire).2 ≠ .overflow) :
    (m.call now .expire).2 = (l.call now .expire).2 ∧
      Agree (m.call now .expire).1 (l.call now .expire).1 := by
  simp only [Timers.call, Ledger.call, Timers.expire, Ledger.expire] at *
  by_cases hempty : m.slots.isEmpty = true
  · -- Nothing is armed, so the record finds nothing due either.
    have hnone : l.due now = [] := by
      rw [List.eq_nil_iff_forall_not_mem]
      intro e he
      have hslot := h.slot_eq ((mem_due h.toMatches now e).mp he).1
      rw [(Table.isEmpty_iff _).mp hempty e.1] at hslot
      exact absurd hslot (by simp)
    have hsound : Sound { m with heap := [] } [] := by
      refine h.sound.thin h.sound.distinct (List.nil_sublist _) ?_
      intro id s hs _
      rw [(Table.isEmpty_iff _).mp hempty id] at hs
      exact absurd hs (by simp)
    simp only [hempty, ↓reduceIte, hnone]
    exact ⟨rfl, h.toMatches.congr rfl rfl rfl, hsound⟩
  · have hhanded := takeDue_handed h now
    have hmatch := takeDue_matches h now
    have hsound := takeDue_sound h now
    simp only [hempty, Bool.false_eq_true, ↓reduceIte] at ho ⊢
    rw [hhanded.1] at ho ⊢
    generalize hrec : (l.due now).filter (fun e => e.2.recurring) = recurring at *
    by_cases hfit : recurring.any (fun e => (now.add? e.2.interval).isNone) = true
    · have hover := rearmDue_overflow now (recurring.map fun e => (e.1, e.2.interval))
        { m with
          heap := (takeDue now m.heap m.slots).heap
          slots := (takeDue now m.heap m.slots).slots }
        (by rwa [List.any_map])
      split at ho
      · next hre =>
        rw [hre] at hover
        exact absurd hover (by simp)
      · exact absurd rfl ho
    · have hids : (recurring.map (·.1)).Nodup :=
        hrec ▸ (List.filter_sublist.map _).nodup (due_ids_nodup h.toMatches now)
      have hkept : ∀ e ∈ recurring,
          (l.without ((l.due now).filter fun e => !e.2.recurring)).plans.get? e.1 =
            some e.2 := by
        intro e he
        obtain ⟨hdue, hrecur⟩ := List.mem_filter.mp (hrec ▸ he)
        exact without_keeps h.toMatches now hdue hrecur
      have hall : ∀ e ∈ recurring, (now.add? e.2.interval).isSome = true := by
        intro e he
        by_contra hnone
        exact hfit (List.any_eq_true.mpr ⟨e, he, by simpa using hnone⟩)
      have hrearm := rearmDue_agree now recurring hmatch hsound hids hkept hall
      simp only [hfit, Bool.false_eq_true, ↓reduceIte]
      split
      · next hre =>
        rw [hre] at hrearm
        exact ⟨congrArg Answer.callbacks hhanded.2, hrearm.2⟩
      · next hre =>
        rw [hre] at hrearm
        exact absurd hrearm.1 (by simp)

end Fibers.Timers
