import Fibers.Proofs.Timer.Expiry

/-!
A set of timers answers every row of calls as the plain record of its armed timers does, as long as
every deadline that is asked for exists.
-/

namespace Fibers.Timers

open Arming

variable {κ : Type}

/-- The first entry that is not dead has the least deadline of all armed timers. -/
theorem front_deadline {m : Timers κ} {l : Ledger κ} (h : Agree m l) :
    m.pruneFront.heap.head?.map (·.deadline) =
      (l.plans.entries.map fun e => e.2.deadline).min? := by
  have hin : ∀ e ∈ l.plans.entries, entryOf e.1 e.2.slot ∈ m.pruneFront.heap := by
    intro e he
    have hs := h.slot_eq (Table.get?_of_mem h.distinct he)
    exact h.sound.pruneFront.queued e.1 _ hs List.not_mem_nil
  have hsort := h.sound.pruneFront.sorted
  cases hheap : m.pruneFront.heap with
  | nil =>
    have hnone : l.plans.entries = [] := by
      rw [List.eq_nil_iff_forall_not_mem]
      intro e he
      have := hin e he
      rw [hheap] at this
      exact List.not_mem_nil this
    rw [hnone]
    rfl
  | cons a rest =>
    rw [hheap] at hin hsort
    have hlive : live m.slots a = true := by
      have hhead := List.head?_dropWhile_not (fun a => !live m.slots a) m.heap
      have hfront : (m.heap.dropWhile fun a => !live m.slots a).head? = some a := by
        rw [show (m.heap.dropWhile fun a => !live m.slots a) = a :: rest from hheap]
        rfl
      rw [hfront] at hhead
      simpa using hhead
    have hmem : a ∈ m.heap := by
      refine (List.dropWhile_sublist fun a => !live m.slots a).subset ?_
      rw [show (m.heap.dropWhile fun a => !live m.slots a) = a :: rest from hheap]
      exact List.mem_cons_self ..
    obtain ⟨s, hs, hseq⟩ := (live_iff m.slots a).mp hlive
    have hentry := h.sound.entry_of_live hmem hs hseq
    rw [h.view] at hs
    obtain ⟨p, hp, rfl⟩ := Option.map_eq_some_iff.mp hs
    have hdeadline : a.deadline = p.deadline := congrArg Arming.deadline hentry
    symm
    rw [List.head?_cons, Option.map_some, hdeadline, List.min?_eq_some_iff]
    refine ⟨List.mem_map.mpr ⟨(a.id, p), Table.mem_of_get? hp, rfl⟩, ?_⟩
    intro d hd
    obtain ⟨e, he, rfl⟩ := List.mem_map.mp hd
    rw [← hdeadline]
    rcases List.mem_cons.mp (hin e he) with heq | hrest
    · exact Nat.le_of_eq (congrArg Arming.deadline heq.symm)
    · exact before_deadline_le ((List.pairwise_cons.mp hsort).1 _ hrest)

theorem next_agree {m : Timers κ} {l : Ledger κ} (h : Agree m l) (now : Instant) :
    (m.call now .next).2 = (l.call now .next).2 ∧
      Agree (m.call now .next).1 (l.call now .next).1 := by
  have hcalm : Agree { m with tickled := false } l :=
    ⟨h.toMatches.congr rfl rfl rfl,
      ⟨h.sound.distinct, h.sound.sorted, h.sound.numbered, h.sound.bounded, h.sound.queued⟩⟩
  refine ⟨?_, hcalm.toMatches.congr rfl rfl rfl, hcalm.sound.pruneFront⟩
  simp only [Timers.call, Ledger.call, Timers.next, Ledger.next, ← front_deadline hcalm,
    Option.map_map]
  rfl

/-- A call whose deadlines exist has the same answer on both sides and keeps them tied. -/
theorem call_agree {m : Timers κ} {l : Ledger κ} (h : Agree m l) (now : Instant) (c : Call κ)
    (ho : (m.call now c).2 ≠ .overflow) :
    (m.call now c).2 = (l.call now c).2 ∧ Agree (m.call now c).1 (l.call now c).1 := by
  cases c with
  | add delay callback recurring => exact add_agree h now delay callback recurring
  | cancel id => exact cancel_agree h now id
  | refresh id => exact refresh_agree h now id
  | reset id interval fromNow => exact reset_agree h now id interval fromNow
  | isArmed id => exact ⟨congrArg Answer.flag (h.isSome_eq id), h⟩
  | next => exact next_agree h now
  | expire => exact expire_agree h now ho
  | hasTimer =>
    have hempty : m.slots.isEmpty = l.plans.isEmpty := by
      rw [Bool.eq_iff_iff, Table.isEmpty_iff, Table.isEmpty_iff]
      exact forall_congr' fun id => by rw [h.view, Option.map_eq_none_iff]
    exact ⟨by simp only [Timers.call, Ledger.call, Timers.hasTimer, hempty], h⟩
  | size =>
    have hsize := Table.size_congr h.sound.distinct h.distinct h.isSome_eq
    exact ⟨congrArg Answer.count hsize, h⟩

theorem answers_agree (calls : List (Instant × Call κ)) {m : Timers κ} {l : Ledger κ}
    (h : Agree m l) (ho : Answer.overflow ∉ m.answers calls) :
    m.answers calls = l.answers calls := by
  induction calls generalizing m l with
  | nil => rfl
  | cons c calls ih =>
    obtain ⟨now, c⟩ := c
    simp only [Timers.answers, List.mem_cons, not_or] at ho
    obtain ⟨hans, hagree⟩ := call_agree h now c (Ne.symm ho.1)
    simp only [Timers.answers, Ledger.answers, hans, ih hagree ho.2]

/-- From the start on, every row of calls whose deadlines exist is answered by a set of timers as by
the plain record. -/
theorem answers_eq_ledger (calls : List (Instant × Call κ))
    (ho : Answer.overflow ∉ (empty : Timers κ).answers calls) :
    (empty : Timers κ).answers calls = Ledger.empty.answers calls :=
  answers_agree calls agree_empty ho

/-- Two timers fall due together; one is recurring and was armed anew before, so a dead entry is in
the list. -/
theorem answers_eq_ledger_recurring_tie :
    let calls : List (Instant × Call String) :=
      [(0, .add 5 "tick" true), (1, .refresh 1), (1, .add 5 "once" false), (6, .expire),
        (7, .next), (7, .cancel 2)]
    Answer.overflow ∉ (empty : Timers String).answers calls ∧
      (empty : Timers String).answers calls = Ledger.empty.answers calls ∧
      (empty : Timers String).answers calls =
        [.timer 1, .flag true, .timer 2, .callbacks ["tick", "once"], .wait (some 4),
          .flag false] := by
  intro calls
  have ho : Answer.overflow ∉ (empty : Timers String).answers calls := by decide
  exact ⟨ho, answers_eq_ledger calls ho, by decide⟩

end Fibers.Timers
