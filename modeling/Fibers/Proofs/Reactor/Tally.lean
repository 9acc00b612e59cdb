import Mathlib.Data.Finset.Card
import Fibers.Proofs.Reactor.Masks

/-!
The pending count against the masks. A table is tallied if the numbers with something armed have
slots, and no more events are armed than its pending count says. Every operation keeps it so,
whatever handlers are stored, also the one that takes out two events and counts them as one. What
disarming does to a tallied table depends on the mask of the number and on the poller alone.
-/

namespace Fibers

namespace Event

/-- The number of members. -/
def count (e : Event) : Nat := (if e.read then 1 else 0) + (if e.write then 1 else 0)

theorem count_of_isSingle {e : Event} (single : e.isSingle = true) : e.count = 1 := by
  rcases eq_of_isSingle single with rfl | rfl <;> rfl

/-- The members that are taken out and those that stay. -/
theorem count_without {a e : Event} (armed : a.contains e = true) :
    (a.without e).count + e.count = a.count := by
  obtain ⟨_ | _, _ | _⟩ := a <;> obtain ⟨_ | _, _ | _⟩ := e <;> first | rfl | cases armed

theorem count_union {a e : Event} (single : e.isSingle = true) (free : a.contains e = false) :
    (a.union e).count = a.count + 1 := by
  obtain ⟨_ | _, _ | _⟩ := a <;> rcases eq_of_isSingle single with rfl | rfl <;>
    first | rfl | cases free

theorem count_pos {a e : Event} (armed : a.contains e = true) : 0 < e.count := by
  obtain ⟨_ | _, _ | _⟩ := e <;> first | cases armed | exact Nat.succ_pos _

theorem isEmpty_without {a e : Event} (left : (a.without e).isEmpty = false) :
    a.isEmpty = false := by
  obtain ⟨_ | _, _ | _⟩ := a <;> first | rfl | cases left

theorem contains_self {a : Event} (some : a.isEmpty = false) : a.contains a = true := by
  obtain ⟨_ | _, _ | _⟩ := a <;> first | rfl | cases some

theorem without_self (a : Event) : a.without a = none := by
  obtain ⟨_ | _, _ | _⟩ := a <;> rfl

/-- The members, with the number that they are armed for. -/
def pairs (fd : Int) (e : Event) : Finset (Int × Event) :=
  (if e.read then {(fd, readable)} else ∅) ∪ (if e.write then {(fd, writable)} else ∅)

theorem card_pairs (fd : Int) (e : Event) : (e.pairs fd).card = e.count := by
  obtain ⟨_ | _, _ | _⟩ := e <;> simp [pairs, count, readable, writable]

theorem mem_pairs {fd j : Int} {e x : Event} (single : x.isSingle = true) :
    (j, x) ∈ e.pairs fd ↔ j = fd ∧ e.contains x = true := by
  obtain ⟨_ | _, _ | _⟩ := e <;> rcases eq_of_isSingle single with rfl | rfl <;>
    simp [pairs, contains, isEmpty, without, readable, writable]

theorem isSingle_of_mem_pairs {fd : Int} {e : Event} {p : Int × Event} (mem : p ∈ e.pairs fd) :
    p.2.isSingle = true := by
  rcases Finset.mem_union.mp mem with mem | mem
  all_goals
    split at mem
    · rw [Finset.mem_singleton.mp mem]
      rfl
    · cases Finset.notMem_empty _ mem

end Event

namespace Reactor.FdTable

variable {η π : Type} {t t' : FdTable η} {fd : Int} {e : Event} {s : Finset (Int × Event)}
  {poller : Poller π} {p : π}

/-- The set has the armed events, and nothing else. -/
structure Lists (t : FdTable η) (s : Finset (Int × Event)) : Prop where
  mem : ∀ fd e, e.isSingle = true → ((fd, e) ∈ s ↔ (t.mask fd).contains e = true)
  single : ∀ p ∈ s, p.2.isSingle = true

/-- Numbers with something armed have slots, and no more events are armed than pending. -/
structure Tallied (t : FdTable η) : Prop where
  inside : ∀ fd, (t.mask fd).isEmpty = false → 0 ≤ fd ∧ fd < t.size
  counted : ∃ s, t.Lists s ∧ s.card ≤ t.pending

theorem Lists.pairs_subset (h : t.Lists s) (fd : Int) : (t.mask fd).pairs fd ⊆ s := by
  intro p mem
  have single := Event.isSingle_of_mem_pairs mem
  obtain ⟨here, armed⟩ := (Event.mem_pairs single).mp mem
  exact (h.mem p.1 p.2 single).mpr (here ▸ armed)

/-- The mask of one number changes. -/
theorem Lists.change (h : t.Lists s) {after : Event}
    (masks : ∀ j, t'.mask j = if j = fd then after else t.mask j) :
    t'.Lists ((s \ (t.mask fd).pairs fd) ∪ after.pairs fd) where
  mem j x single := by
    rw [Finset.mem_union, Finset.mem_sdiff, h.mem j x single, Event.mem_pairs single,
      Event.mem_pairs single, masks]
    by_cases hj : j = fd
    · subst hj
      simp
    · simp [hj]
  single p mem := by
    rcases Finset.mem_union.mp mem with mem | mem
    · exact h.single p (Finset.mem_sdiff.mp mem).1
    · exact Event.isSingle_of_mem_pairs mem

namespace Tallied

/-- What is armed of one number is counted. -/
theorem count_le (h : t.Tallied) (fd : Int) : (t.mask fd).count ≤ t.pending := by
  obtain ⟨s, lists, le⟩ := h.counted
  rw [← Event.card_pairs fd]
  exact (Finset.card_le_card (lists.pairs_subset fd)).trans le

/-- The mask of one number changes, and the count follows. -/
theorem change (h : t.Tallied) {after : Event}
    (masks : ∀ j, t'.mask j = if j = fd then after else t.mask j) (room : t.size ≤ t'.size)
    (inside : after.isEmpty = false → 0 ≤ fd ∧ fd < t.size)
    (more : t.pending + after.count ≤ t'.pending + (t.mask fd).count) : t'.Tallied where
  inside j some := by
    rw [masks] at some
    split at some
    · next here =>
      have := inside some
      omega
    · have := h.inside j some
      omega
  counted := by
    obtain ⟨s, lists, le⟩ := h.counted
    refine ⟨_, lists.change masks, ?_⟩
    have fewer := Finset.card_sdiff_add_card_eq_card (lists.pairs_subset fd)
    have both := Finset.card_union_le (s \ (t.mask fd).pairs fd) (after.pairs fd)
    rw [Event.card_pairs] at fewer both
    omega

theorem of_fresh {n : Nat} (made : fresh n = .ok t) : t.Tallied := by
  unfold fresh at made
  split at made
  · obtain rfl := Except.ok.inj made
    refine ⟨nofun, ∅, ⟨fun fd e single => ?_, nofun⟩, Nat.zero_le _⟩
    have unarmed : ({ size := n, slots := .empty, pending := 0 } : FdTable η).mask fd = .none := rfl
    rw [unarmed]
    rcases Event.eq_of_isSingle single with rfl | rfl <;> simp [Event.none]
  · cases made

/-- More room. -/
theorem grow (h : t.Tallied) {n : Nat} (grown : t.size ≤ n) : { t with size := n }.Tallied where
  inside fd some := by
    have := h.inside fd some
    dsimp only
    omega
  counted := by
    obtain ⟨s, lists, le⟩ := h.counted
    exact ⟨s, ⟨lists.mem, lists.single⟩, le⟩

/-- A number with something armed has a slot. -/
theorem lookup? (h : t.Tallied) (armed : (t.mask fd).isEmpty = false) :
    t.lookup? fd = some (t.slot fd) := if_pos (h.inside fd armed)

end Tallied

theorem reserve_inside {grown : Option Nat} (ok : t.reserve fd = .ok (t', grown)) :
    0 ≤ fd ∧ fd < t'.size := by
  unfold reserve at ok
  split at ok
  · cases ok
  · split at ok
    · obtain ⟨rfl, -⟩ := Prod.mk.inj (Except.ok.inj ok)
      omega
    · dsimp only at ok
      split at ok
      · obtain ⟨rfl, -⟩ := Prod.mk.inj (Except.ok.inj ok)
        dsimp only
        omega
      · cases ok

/-- Arming counts one more, whether or not a handler was in the way. -/
theorem arm_tallied (poller : Poller π) (p : π) (h : t.Tallied) (single : e.isSingle = true)
    (inside : 0 ≤ fd ∧ fd < t.size) (handler : η) :
    (t.arm poller p fd e handler).2.1.Tallied := by
  have masks := arm_masks t fd e ((t.slot fd).armed.union e) handler
  cases armed : (t.slot fd).armed.contains e with
  | true =>
    simp only [arm, armed, if_true]
    exact h
  | false =>
    have count : ((t.slot fd).armed.union e).count = (t.mask fd).count + 1 :=
      Event.count_union single armed
    have more : t.pending + ((t.slot fd).armed.union e).count ≤
        t.pending + 1 + (t.mask fd).count := by omega
    simp only [arm, armed, Bool.false_eq_true, if_false]
    split
    · exact h
    · split
      · exact h.change (fun j => (masks j).1) (Nat.le_refl _) (fun _ => inside) more
      · exact h.change (fun j => (masks j).2) (Nat.le_refl _) (fun _ => inside) more

/-- A single event fires and is counted off. -/
theorem trigger_settles (h : t.Tallied) (single : e.isSingle = true)
    (armed : (t.mask fd).contains e = true) :
    ∃ t' h, t.trigger fd e = (t', .ok h) ∧ t'.settle.Tallied ∧
      t'.settle.pending + (t.mask fd).count = t.pending + ((t.mask fd).without e).count ∧
      ∀ j, t'.settle.mask j = if j = fd then (t.mask fd).without e else t.mask j := by
  have masks := trigger_mask (t := t) armed
  have less := Event.count_without armed
  have one := Event.count_of_isSingle single
  have le := h.count_le fd
  obtain ⟨handler, fired⟩ := trigger_single (t := t) armed single
  have pending : (t.trigger fd e).1.pending = t.pending := by
    have armed' : (t.slot fd).armed.contains e = true := armed
    simp only [trigger, armed', Bool.not_true, Bool.false_eq_true, if_false]
    split <;> rfl
  have room : (t.trigger fd e).1.size = t.size := by
    have armed' : (t.slot fd).armed.contains e = true := armed
    simp only [trigger, armed', Bool.not_true, Bool.false_eq_true, if_false]
    split <;> rfl
  have counts : (t.trigger fd e).1.settle.pending + (t.mask fd).count =
      t.pending + ((t.mask fd).without e).count := by
    change (t.trigger fd e).1.pending - 1 + _ = _
    omega
  refine ⟨_, handler, Prod.ext rfl fired, ?_, counts, masks⟩
  exact h.change masks (Nat.le_of_eq room.symm)
    (fun some => h.inside fd (Event.isEmpty_without some)) (Nat.le_of_eq counts.symm)

/-- Whatever fires one by one is counted off one by one. -/
theorem fireEach_settles (fd : Int) (es : List Event) (single : ∀ e ∈ es, e.isSingle = true)
    (h : t.Tallied) :
    ∃ t' hs, t.fireEach fd es = (t', .ok hs) ∧ t'.Tallied ∧
      t'.pending + (t.mask fd).count = t.pending + (t'.mask fd).count := by
  induction es generalizing t with
  | nil => exact ⟨t, [], rfl, h, rfl⟩
  | cons e es ih =>
    have single' := fun x hx => single x (List.mem_cons_of_mem e hx)
    unfold fireEach
    cases armed : (t.slot fd).armed.contains e with
    | false =>
      simp only [Bool.false_eq_true, if_false]
      exact ih single' h
    | true =>
      obtain ⟨v, handler, fired, tallied, counts, masks⟩ :=
        trigger_settles h (single e List.mem_cons_self) armed
      obtain ⟨t', hs, rest, tallied', counts'⟩ := ih single' tallied
      simp only [if_true, fired, rest]
      refine ⟨t', _, rfl, tallied', ?_⟩
      rw [masks, if_pos rfl] at counts'
      omega

theorem dispatch_tallied (poller : Poller π) (p : π) (h : t.Tallied) (fd : Int) (reported : Event) :
    (t.dispatch poller p fd reported).2.1.Tallied := by
  unfold dispatch
  split
  · exact h
  · dsimp only
    split
    · exact h
    · split
      · exact h
      · obtain ⟨t', hs, fired, tallied, -⟩ := fireEach_settles fd
          ([Event.readable, Event.writable].filter fun e => Event.contains _ e)
          (fun _ mem => Event.isSingle_of_mem_members mem) h
        rw [fired]
        exact tallied

/-- How it ends to disarm the events `gone` of a number; `several` says that more than one event was
to be disarmed where one is. -/
inductive Disarms (poller : Poller π) (p : π) (t : FdTable η) (fd : Int) (gone : Event)
    (several : Prop) : π × FdTable η × Disarmed η → Prop where
  | absent (unarmed : (t.mask fd).contains gone = false) :
      Disarms poller p t fd gone several (p, t, .absent)
  | refused {p' : π} {cause : OsError} (armed : (t.mask fd).contains gone = true)
      (told : rearm poller p fd ((t.mask fd).without gone) = (p', .error cause)) :
      Disarms poller p t fd gone several (p', t, .refused cause)
  | done {p' : π} {t' : FdTable η} {hs : List η} (armed : (t.mask fd).contains gone = true)
      (told : rearm poller p fd ((t.mask fd).without gone) = (p', .ok ())) (tallied : t'.Tallied)
      (masks : ∀ j, t'.mask j = if j = fd then (t.mask fd).without gone else t.mask j)
      (counts : t'.pending + gone.count = t.pending) :
      Disarms poller p t fd gone several (p', t', .done hs)
  | violated {p' : π} {t' : FdTable η} {v : Violation} (is : several) (tallied : t'.Tallied) :
      Disarms poller p t fd gone several (p', t', .violated v)

/-- The mask of a number without some of its events. -/
theorem mask_setSlot_without (t : FdTable η) (fd : Int) (e : Event) (pending : Nat)
    (h : Option η) (j : Int) :
    let t' := { t with pending := pending }
    let s := { t.slot fd with armed := (t.slot fd).armed.without e }
    (t'.setSlot fd s).mask j = (if j = fd then (t.mask fd).without e else t.mask j) ∧
      (t'.setSlot fd (s.setHandler e h)).mask j =
        if j = fd then (t.mask fd).without e else t.mask j := by
  simp only [mask_setSlot, setHandler_armed]
  exact ⟨rfl, rfl⟩

theorem delete_disarms (h : t.Tallied) (fd : Int) (e : Event) {several : Prop}
    (is : e.isSingle = false → several) :
    Disarms poller p t fd e several (t.delete poller p fd e) := by
  cases armed : (t.mask fd).contains e with
  | false =>
    rw [(absent_of_not_contains armed).1]
    exact .absent armed
  | true =>
    have slot := h.lookup? (isEmpty_of_contains armed)
    have less := Event.count_without armed
    have le := h.count_le fd
    have some := Event.count_pos armed
    have masks := mask_setSlot_without t fd e (t.pending - 1) none
    have inside := fun left => h.inside fd (Event.isEmpty_without (e := e) left)
    have armed' : (t.slot fd).armed.contains e = true := armed
    rcases told : rearm poller p fd ((t.slot fd).armed.without e) with ⟨p', cause | ⟨⟩⟩
    · simp only [delete, slot, armed', told, Bool.not_true, Bool.false_eq_true, if_false]
      exact .refused armed told
    · simp only [delete, slot, armed', told, Bool.not_true, Bool.false_eq_true, if_false]
      split
      · next single =>
        have one := Event.count_of_isSingle single
        have counts : t.pending - 1 + e.count = t.pending := by omega
        refine .done armed told (h.change (fun j => (masks j).2) (Nat.le_refl _) inside ?_)
          (fun j => (masks j).2) counts
        change t.pending + _ ≤ t.pending - 1 + _
        omega
      · next several =>
        refine .violated (is (Bool.not_eq_true _ ▸ several))
          (h.change (fun j => (masks j).1) (Nat.le_refl _) inside ?_)
        change t.pending + _ ≤ t.pending - 1 + _
        omega

theorem cancel_disarms (h : t.Tallied) (fd : Int) (e : Event) {several : Prop}
    (is : e.isSingle = false → several) :
    Disarms poller p t fd e several (t.cancel poller p fd e) := by
  cases armed : (t.mask fd).contains e with
  | false =>
    rw [(absent_of_not_contains armed).2]
    exact .absent armed
  | true =>
    have slot := h.lookup? (isEmpty_of_contains armed)
    have less := Event.count_without armed
    have armed' : (t.slot fd).armed.contains e = true := armed
    rcases told : rearm poller p fd ((t.slot fd).armed.without e) with ⟨p', cause | ⟨⟩⟩
    · simp only [cancel, slot, armed', told, Bool.not_true, Bool.false_eq_true, if_false]
      exact .refused armed told
    · simp only [cancel, slot, armed', told, Bool.not_true, Bool.false_eq_true, if_false]
      cases single : e.isSingle with
      | true =>
        have one := Event.count_of_isSingle single
        obtain ⟨t', handler, fired, tallied, counts, masks⟩ := trigger_settles h single armed
        rw [fired]
        exact .done armed told tallied masks (by omega)
      | false =>
        have masks := trigger_mask (t := t) armed
        simp only [trigger, armed', single, Bool.not_true, Bool.false_eq_true, if_false] at masks ⊢
        refine .violated (is single) (h.change masks (Nat.le_refl _)
          (fun left => h.inside fd (Event.isEmpty_without left)) ?_)
        change t.pending + _ ≤ t.pending + _
        omega

theorem cancelAll_disarms (h : t.Tallied) (fd : Int) (several : Prop) :
    Disarms poller p t fd (t.mask fd) several (t.cancelAll poller p fd) := by
  cases empty : (t.mask fd).isEmpty with
  | true =>
    have unarmed : (t.mask fd).contains (t.mask fd) = false := by simp [Event.contains, empty]
    have empty' : (t.slot fd).armed.isEmpty = true := empty
    unfold cancelAll
    cases found : t.lookup? fd with
    | none => exact .absent unarmed
    | some s =>
      obtain rfl := slot_of_lookup? found
      simp only [empty', if_true]
      exact .absent unarmed
  | false =>
    have slot := h.lookup? empty
    have empty' : (t.slot fd).armed.isEmpty = false := empty
    have armed := Event.contains_self empty
    have asked : rearm poller p fd ((t.mask fd).without (t.mask fd)) = poller.deregister p fd := by
      rw [Event.without_self]
      rfl
    rcases told : poller.deregister p fd with ⟨p', cause | ⟨⟩⟩
    · simp only [cancelAll, slot, empty', told, Bool.false_eq_true, if_false]
      exact .refused armed (asked.trans told)
    · obtain ⟨t', hs, fired, tallied, counts⟩ :=
        fireEach_settles fd [.readable, .writable] (by decide) h
      have masks := fireEach_mask fd [.readable, .writable] (by decide) t
      rw [fired, foldl_without_all, ← Event.without_self (t.mask fd)] at masks
      simp only [cancelAll, slot, empty', told, fired, Bool.false_eq_true, if_false]
      rw [masks fd, if_pos rfl, Event.without_self] at counts
      exact .done armed (asked.trans told) tallied masks counts

end Reactor.FdTable

end Fibers
