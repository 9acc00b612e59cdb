import Fibers.Proofs.Sleep.Dorm
import Fibers.Proofs.Timer.Expiry

/-!
The timers of sleeps. Each sleep that is not due has a timer that goes off once, under the number of
its call; the entries of these timers stand in the order of the alarms, and there are no others.
-/

namespace Fibers

open Timers (current dueOf)

namespace Script

namespace Nap

/-- What the timer of a sleep does. -/
def callback (s : SchedulerId) (x : Nap) : TimerBody := .wake s x.sleep.fiber

/-- Its timer. -/
def slot (s : SchedulerId) (x : Nap) : TimerSlot TimerBody :=
  ⟨x.number + 1, x.sleep.due, x.sleep.duration, false, x.callback s⟩

end Nap

/-- The timers of a set are those of some sleeps, out of a number of calls so far. -/
structure Rings (s : SchedulerId) (m : Timers TimerBody) (alarms : List Nap) (count : Nat) :
    Prop where
  heap : m.heap = alarms.map Nap.arming
  sorted : Arming.Sorted m.heap
  slots : ∀ id t, m.slots.get? id = some t ↔ ∃ x ∈ alarms, id = x.number + 1 ∧ t = x.slot s
  numbered : (alarms.map Nap.number).Nodup
  few : ∀ x ∈ alarms, x.number < count
  lastId : m.lastId = count
  lastSeq : m.lastSeq = count

namespace Rings

variable {s : SchedulerId} {m : Timers TimerBody} {alarms : List Nap} {count : Nat} {now : Instant}

theorem empty (s : SchedulerId) : Rings s .empty [] 0 where
  heap := rfl
  sorted := .nil
  slots id t := by simp [Timers.empty]
  numbered := List.nodup_nil
  few := List.forall_mem_nil _
  lastId := rfl
  lastSeq := rfl

theorem slot (h : Rings s m alarms count) {x : Nap} (mem : x ∈ alarms) :
    m.slots.get? (x.number + 1) = some (x.slot s) := (h.slots _ _).mpr ⟨x, mem, rfl, rfl⟩

/-- There is no timer if nobody sleeps. -/
theorem isEmpty_iff (h : Rings s m alarms count) : m.slots.isEmpty = true ↔ alarms = [] := by
  rw [Table.isEmpty_iff]
  constructor
  · refine fun none => List.eq_nil_iff_forall_not_mem.mpr fun x mem => ?_
    exact Option.some_ne_none _ ((h.slot mem).symm.trans (none (x.number + 1)))
  · rintro rfl id
    refine Option.eq_none_iff_forall_ne_some.mpr fun t found => ?_
    obtain ⟨_, mem, _⟩ := (h.slots id t).mp found
    cases mem

/-- Whether a wake was sent does not matter. -/
theorem tickled (h : Rings s m alarms count) (tickled : Bool) :
    Rings s { m with tickled := tickled } alarms count := { h with }

/-- An entry is the current one of its timer. -/
theorem current (h : Rings s m alarms count) {x : Nap} (mem : x ∈ alarms) :
    Timers.current m.slots x.arming = some (x.number + 1, x.slot s) :=
  Timers.current_eq_some_iff.mpr ⟨h.slot mem, rfl, rfl⟩

/-- The time until the first alarm. -/
theorem next (h : Rings s m alarms count) (now : Instant) :
    m.next now = ({ m with tickled := false }, alarms.head?.map fun x => x.sleep.due - now) := by
  have fresh : m.heap.dropWhile (fun a => !Timers.live m.slots a) = m.heap := by
    rw [h.heap]
    cases alarms with
    | nil => rfl
    | cons x alarms =>
      have live : Timers.live m.slots x.arming = true :=
        (Timers.live_iff m.slots _).mpr ⟨x.slot s, h.slot List.mem_cons_self, rfl⟩
      rw [List.map_cons, List.dropWhile_cons_of_neg (by rw [live]; exact Bool.false_ne_true)]
  have pruned : ({ m with tickled := false } : Timers TimerBody).pruneFront =
      { m with tickled := false } := by
    rw [Timers.pruneFront]
    exact congrArg (fun heap => ({ m with heap, tickled := false } : Timers TimerBody)) fresh
  rw [Timers.next, pruned]
  refine congrArg _ ?_
  dsimp only
  rw [h.heap]
  cases alarms <;> rfl

/-- The timers with one more, under the next number. -/
def withAlarm (s : SchedulerId) (m : Timers TimerBody) (x : Nap) (count : Nat) :
    Timers TimerBody :=
  { m with
    heap := Arming.insert x.arming m.heap
    slots := m.slots.put (count + 1) (x.slot s)
    lastId := count + 1
    lastSeq := count + 1 }

theorem withAlarm_rings (h : Rings s m alarms count) {x : Nap} (number : x.number = count) :
    Rings s (withAlarm s m x count) (Nap.insert x alarms) (count + 1) := by
  have mem : ∀ y, y ∈ Nap.insert x alarms ↔ y = x ∨ y ∈ alarms := fun y => by
    rw [(Nap.insert_perm x alarms).mem_iff, List.mem_cons]
  refine ⟨?_, ?_, fun id t => ?_, ?_, fun y member => ?_, rfl, rfl⟩
  · change Arming.insert x.arming m.heap = _
    rw [h.heap, Nap.insert_arming]
  · refine Arming.insert_sorted h.sorted fun a member => ?_
    rw [h.heap] at member
    obtain ⟨y, among, rfl⟩ := List.mem_map.mp member
    have small := h.few y among
    exact fun same => Nat.ne_of_gt small (number ▸ Nat.succ.inj same)
  · change (m.slots.put (count + 1) (x.slot s)).get? id = some t ↔ _
    rw [Table.get?_put]
    split
    · next new =>
      subst new
      constructor
      · rintro ⟨⟩
        exact ⟨x, (mem x).mpr (.inl rfl), by rw [number], rfl⟩
      · rintro ⟨y, member, same, rfl⟩
        rcases (mem y).mp member with rfl | member
        · rfl
        · exact absurd (Nat.succ.inj same) (Nat.ne_of_gt (h.few y member))
    · next old =>
      rw [h.slots]
      refine exists_congr fun y => ⟨fun told => ⟨(mem y).mpr (.inr told.1), told.2⟩, ?_⟩
      rintro ⟨member, rfl, rfl⟩
      rcases (mem y).mp member with rfl | member
      · exact absurd (congrArg (· + 1) number) old
      · exact ⟨member, rfl, rfl⟩
  · rw [((Nap.insert_perm x alarms).map Nap.number).nodup_iff, List.map_cons, List.nodup_cons]
    refine ⟨fun member => ?_, h.numbered⟩
    obtain ⟨y, member, same⟩ := List.mem_map.mp member
    exact Nat.ne_of_lt (h.few y member) (same.trans number)
  · rcases (mem y).mp member with rfl | member
    · exact Nat.lt_succ_of_le (Nat.le_of_eq number)
    · exact Nat.lt_succ_of_lt (h.few y member)

/-- A call for a sleep arms a timer. -/
theorem add (h : Rings s m alarms count) {x : Nap} (number : x.number = count)
    {due : Instant} (inTime : x.sleep.begun.add? x.sleep.duration = some due) :
    ∃ m' wake, m.add x.sleep.begun x.sleep.duration (x.callback s) false =
        (m', some (count + 1, wake)) ∧ Rings s m' (Nap.insert x alarms) (count + 1) := by
  obtain rfl := Instant.eq_of_add? inTime
  let armed := withAlarm s m x count
  have rings : Rings s armed (Nap.insert x alarms) (count + 1) := h.withAlarm_rings number
  have added : m.add x.sleep.begun x.sleep.duration (x.callback s) false =
      ((armed.frontWake (count + 1)).1,
        some (count + 1, (armed.frontWake (count + 1)).2)) := by
    have arming : x.arming = ⟨x.sleep.begun + x.sleep.duration, count + 1, count + 1⟩ := by
      rw [Nap.arming, number]
      rfl
    have slot : x.slot s = ⟨count + 1, x.sleep.begun + x.sleep.duration, x.sleep.duration, false,
        x.callback s⟩ := by
      rw [Nap.slot, number]
      rfl
    simp only [Timers.add, inTime, Timers.arm, h.lastId, h.lastSeq, armed, withAlarm, arming, slot]
  refine ⟨_, _, added, ?_⟩
  unfold Timers.frontWake
  split
  · exact rings.tickled true
  · exact rings

/-- The entries of different sleeps have different numbers. -/
theorem numbered_heap (h : Rings s m alarms count) : Arming.Numbered m.heap := by
  rw [Arming.Numbered, h.heap, List.map_map]
  have seqs : alarms.map (Arming.seq ∘ Nap.arming) = (alarms.map Nap.number).map (· + 1) := by
    rw [List.map_map]
    rfl
  rw [seqs]
  exact h.numbered.map fun _ _ => Nat.succ.inj

/-- The timers that are due are those of the sleeps that are. -/
theorem dueOf_eq (h : Rings s m alarms count) (now : Instant) :
    dueOf now m.heap m.slots = (alarms.filter fun x => decide (x.sleep.due ≤ now)).map fun x =>
      (x.number + 1, x.slot s) := by
  rw [dueOf, h.heap, List.filter_map, List.filterMap_map, ← List.filterMap_eq_map]
  exact List.filterMap_congr fun x mem => h.current (List.mem_filter.mp mem).1

/-- No timer that is due is armed anew. -/
theorem once (h : Rings s m alarms count) {e : Nat × TimerSlot TimerBody}
    (mem : e ∈ dueOf now m.heap m.slots) : e.2.recurring = false := by
  rw [h.dueOf_eq] at mem
  obtain ⟨x, -, rfl⟩ := List.mem_map.mp mem
  rfl

/-- The timers without those that are due. -/
def withoutDue (m : Timers TimerBody) (now : Instant) : Timers TimerBody :=
  { m with
    heap := m.heap.filter fun a => decide (now < a.deadline)
    slots := (dueOf now m.heap m.slots).foldl (fun t e => t.erase e.1) m.slots }

theorem withoutDue_rings (h : Rings s m alarms count) (now : Instant) :
    Rings s (withoutDue m now) (alarms.filter fun x => decide (now < x.sleep.due)) count := by
  refine ⟨?_, h.sorted.filter _, fun id t => ?_, (List.filter_sublist.map _).nodup h.numbered,
    fun x mem => h.few x (List.mem_filter.mp mem).1, h.lastId, h.lastSeq⟩
  · rw [withoutDue, h.heap, List.filter_map]
    rfl
  · have gone : id ∈ (dueOf now m.heap m.slots).map (·.1) ↔
        ∃ x ∈ alarms, x.sleep.due ≤ now ∧ x.number + 1 = id := by
      rw [h.dueOf_eq, List.map_map]
      simp only [List.mem_map, List.mem_filter, decide_eq_true_eq, Function.comp, and_assoc]
    change ((dueOf now m.heap m.slots).foldl (fun t e => t.erase e.1) m.slots).get? id = _ ↔ _
    rw [Timers.get?_foldl_erase]
    simp only [List.mem_filter, decide_eq_true_eq]
    split
    · next off =>
      obtain ⟨y, among, early, rfl⟩ := gone.mp off
      refine ⟨fun none => absurd none.symm (Option.some_ne_none t), ?_⟩
      rintro ⟨x, ⟨member, late⟩, same, rfl⟩
      obtain rfl := List.inj_on_of_nodup_map h.numbered among member (Nat.succ.inj same)
      exact absurd late (Nat.not_lt.mpr early)
    · next on =>
      rw [h.slots]
      refine exists_congr fun x => ⟨fun told => ?_, fun told => ⟨told.1.1, told.2⟩⟩
      refine ⟨⟨told.1, Nat.lt_of_not_le fun early => on (gone.mpr ?_)⟩, told.2⟩
      exact ⟨x, told.1, early, told.2.1.symm⟩

/-- The alarms that are due go off. -/
theorem expire (h : Rings s m alarms count) (now : Instant) :
    ∃ m', m.expire now =
        (m', .due ((alarms.filter fun x => decide (x.sleep.due ≤ now)).map (Nap.callback s))) ∧
      Rings s m' (alarms.filter fun x => decide (now < x.sleep.due)) count := by
  cases empty : m.slots.isEmpty with
  | true =>
    obtain rfl := h.isEmpty_iff.mp empty
    refine ⟨{ m with heap := [] }, ?_, { h with heap := rfl, sorted := .nil }⟩
    rw [Timers.expire, if_pos empty]
    rfl
  | false =>
    refine ⟨withoutDue m now, ?_, h.withoutDue_rings now⟩
    have all : (dueOf now m.heap m.slots).filter (fun e => !e.2.recurring) =
        dueOf now m.heap m.slots :=
      List.filter_eq_self.mpr fun e mem => by rw [h.once mem]; rfl
    have recurring : (dueOf now m.heap m.slots).filter (fun e => e.2.recurring) = [] :=
      List.filter_eq_nil_iff.mpr fun e mem => by rw [h.once mem]; exact Bool.false_ne_true
    have taken := Timers.takeDue_eq now m.heap m.slots h.sorted h.numbered_heap
    rw [all, recurring] at taken
    rw [Timers.expire, if_neg (by rw [empty]; exact Bool.false_ne_true)]
    simp only [taken, List.map_nil, Timers.rearmDue]
    rw [h.dueOf_eq, List.map_map, List.map_map, withoutDue, h.dueOf_eq]
    rfl

end Rings

end Script

end Fibers
