import Fibers.Proofs.Timer.Waking

/-!
Deadlines that do not exist. A call that arms one timer asks for its deadline first; if there is
none, all timers and their entries stay as they were. A request for the due callbacks takes the due
entries out before it arms the recurring timers among them anew, so timers would be without entries
if it broke off there. At a reading of the clock it does not: the interval of a timer that is due is
no longer than the reading, and twice the last reading is still a moment.
-/

namespace Fibers

/-- A timer that is due at a reading of the clock has a next deadline. -/
theorem Instant.add?_of_read {t : Instant} {d : Duration} (read : t ≤ Instant.last)
    (short : d ≤ t) : t.add? d = some (t + d) := by
  rw [Instant.add?, if_pos]
  calc (t + d) / Duration.nanosPerSecond
      ≤ (Instant.last + Instant.last) / Duration.nanosPerSecond :=
        Nat.div_le_div_right (Nat.add_le_add read (Nat.le_trans short read))
    _ ≤ Instant.maxSecs := by decide

namespace Timers

open Arming

variable {κ : Type} {m m' : Timers κ} {l : Ledger κ} {now : Instant} {waiting : List Nat} {id : Nat}
  {s : TimerSlot κ}

/-- A timer is armed under the next number, with a slot of that number. -/
theorem Sound.put (h : m.Sound waiting) (id : Nat) (deadline : Instant) {s : TimerSlot κ}
    (seq : s.seq = m.lastSeq + 1) (due : s.deadline = deadline) :
    Sound { m.arm id deadline with slots := m.slots.put id s } waiting := by
  refine h.arm id deadline (Table.distinct_put h.distinct id s) ?_ ?_ fun j mem _ => mem
  · intro s' found
    rw [Table.get?_put_self] at found
    obtain rfl := Option.some.inj found
    exact ⟨seq, due⟩
  · intro j other
    exact Table.get?_put_other m.slots s other

theorem add_sound (h : m.Sound waiting) (now : Instant) (delay : Duration) (callback : κ)
    (recurring : Bool) : (m.add now delay callback recurring).1.Sound waiting := by
  have next : Sound { m with lastId := m.lastId + 1 } waiting :=
    ⟨h.distinct, h.sorted, h.numbered, h.bounded, h.queued⟩
  simp only [Timers.add]
  cases now.add? delay with
  | none => exact next
  | some deadline => exact (next.put (m.lastId + 1) deadline rfl rfl).frontWake _

theorem rearm_sound (h : m.Sound waiting) (id : Nat) (slot : TimerSlot κ) (start : Instant)
    (interval : Duration) : (m.rearm id slot start interval).1.Sound waiting := by
  simp only [Timers.rearm]
  cases start.add? interval with
  | none => exact h
  | some deadline => exact ((h.put id deadline rfl rfl).compact).frontWake _

/-- Each due timer is listed once. -/
theorem dueOf_ids_nodup (h : m.Sound waiting) (now : Instant) :
    ((dueOf now m.heap m.slots).map (·.1)).Nodup := by
  have apart : m.heap.Pairwise fun a b => a.seq ≠ b.seq := List.pairwise_map.mp h.numbered
  rw [List.Nodup, List.pairwise_map, dueOf, List.pairwise_filterMap]
  refine (apart.filter _).imp ?_
  intro a b different e he f hf same
  obtain ⟨there, seq, id⟩ := current_eq_some_iff.mp he
  obtain ⟨there', seq', id'⟩ := current_eq_some_iff.mp hf
  rw [← id, same, id', there'] at there
  apply different
  rw [← seq, ← seq', Option.some.inj there]

/-- A due timer is armed. -/
theorem armed_of_mem_dueOf {e : Nat × TimerSlot κ} (mem : e ∈ dueOf now m.heap m.slots) :
    m.slots.get? e.1 = some e.2 := by
  obtain ⟨a, -, is⟩ := List.mem_filterMap.mp mem
  obtain ⟨there, -, id⟩ := current_eq_some_iff.mp is
  rw [id]
  exact there

/-- An armed timer whose entry stands in the list and has come is due. -/
theorem mem_dueOf_of_entry {id : Nat} {s : TimerSlot κ} (there : m.slots.get? id = some s)
    (mem : entryOf id s ∈ m.heap) (due : s.deadline ≤ now) :
    (id, s) ∈ dueOf now m.heap m.slots := by
  refine List.mem_filterMap.mpr ⟨entryOf id s, List.mem_filter.mpr ⟨mem, decide_eq_true due⟩, ?_⟩
  exact current_eq_some_iff.mpr ⟨there, rfl, rfl⟩

/-- The timers after the due entries were taken out. -/
def taken (m : Timers κ) (now : Instant) : Timers κ :=
  { m with
    heap := m.heap.filter fun a => decide (now < a.deadline)
    slots := ((dueOf now m.heap m.slots).filter fun e => !e.2.recurring).foldl
      (fun t e => t.erase e.1) m.slots }

/-- The due timers that are to be armed anew. -/
def again (m : Timers κ) (now : Instant) : List (Nat × TimerSlot κ) :=
  (dueOf now m.heap m.slots).filter fun e => e.2.recurring

theorem again_ids_nodup (h : m.Sound waiting) (now : Instant) :
    ((m.again now).map (·.1)).Nodup :=
  (List.filter_sublist.map _).nodup (dueOf_ids_nodup h now)

theorem expire_eq (h : m.Sound waiting) (now : Instant) (some : m.slots.isEmpty = false) :
    m.expire now =
      match rearmDue now ((m.again now).map fun e => (e.1, e.2.interval)) (m.taken now) with
      | (m', true) => (m', .due ((dueOf now m.heap m.slots).map fun e => e.2.callback))
      | (m', false) => (m', .overflow
          (((dueOf now m.heap m.slots).filter fun e => !e.2.recurring).map fun e =>
            e.2.callback)) := by
  have due := takeDue_eq now m.heap m.slots h.sorted h.numbered
  simp only [Timers.expire, some, Bool.false_eq_true, if_false, due, List.map_map,
    List.filter_map]
  rfl

theorem taken_get? (m : Timers κ) (now : Instant) (id : Nat) :
    (m.taken now).slots.get? id =
      if id ∈ ((dueOf now m.heap m.slots).filter fun e => !e.2.recurring).map (·.1) then none
      else m.slots.get? id :=
  get?_foldl_erase _ _ _

/-- The timers that are to be armed anew are still there. -/
theorem taken_again (h : m.Sound waiting) {e : Nat × TimerSlot κ} (mem : e ∈ m.again now) :
    (m.taken now).slots.get? e.1 = some e.2 := by
  obtain ⟨due, recurring⟩ := List.mem_filter.mp mem
  rw [taken_get?, if_neg, armed_of_mem_dueOf due]
  intro gone
  obtain ⟨f, among, same⟩ := List.mem_map.mp gone
  obtain ⟨due', once⟩ := List.mem_filter.mp among
  obtain rfl := List.inj_on_of_nodup_map (dueOf_ids_nodup h now) due' due same
  rw [recurring] at once
  cases once

theorem taken_sound (h : m.Sound waiting) (now : Instant) :
    (m.taken now).Sound (waiting ++ (m.again now).map (·.1)) := by
  refine h.thin (distinct_foldl_erase _ h.distinct) List.filter_sublist ?_
  intro id s there quiet
  change (m.taken now).slots.get? id = some s at there
  rw [taken_get?] at there
  split at there
  · cases there
  · next lasts =>
    rw [List.mem_append, not_or] at quiet
    have entry := h.queued id s there quiet.1
    rw [List.mem_filter, decide_eq_true_eq]
    refine ⟨entry, Nat.lt_of_not_le fun due => ?_⟩
    have mem := mem_dueOf_of_entry there entry due
    cases recurring : s.recurring with
    | true =>
      exact quiet.2 (List.mem_map.mpr ⟨(id, s), List.mem_filter.mpr ⟨mem, recurring⟩, rfl⟩)
    | false =>
      refine lasts (List.mem_map.mpr ⟨(id, s), List.mem_filter.mpr ⟨mem, ?_⟩, rfl⟩)
      simp only [recurring, Bool.not_false]

theorem rearmDue_sound (now : Instant) (es : List (Nat × Duration))
    (h : m.Sound (waiting ++ es.map (·.1))) :
    ∃ left, (rearmDue now es m).1.Sound (waiting ++ left) ∧
      ((rearmDue now es m).2 = true → left = []) := by
  induction es generalizing m with
  | nil => exact ⟨[], h, fun _ => rfl⟩
  | cons e es ih =>
    simp only [rearmDue]
    cases now.add? e.2 with
    | none => exact ⟨(e :: es).map (·.1), h, fun done => absurd done Bool.false_ne_true⟩
    | some deadline =>
      refine ih (h.arm e.1 deadline (Table.distinct_modify h.distinct e.1 _) ?_ ?_ ?_)
      · intro s there
        rw [Table.get?_modify, if_pos rfl] at there
        obtain ⟨s', -, rfl⟩ := Option.map_eq_some_iff.mp there
        exact ⟨rfl, rfl⟩
      · intro j other
        rw [Table.get?_modify, if_neg other]
        rfl
      · intro j mem other
        rw [List.mem_append, List.map_cons, List.mem_cons] at mem
        rw [List.mem_append]
        rcases mem with mem | rfl | mem
        · exact .inl mem
        · exact absurd rfl other
        · exact .inr mem

theorem expire_sound (h : m.Sound waiting) (now : Instant) :
    ∃ left, (m.expire now).1.Sound (waiting ++ left) ∧
      ((m.call now .expire).2 ≠ .overflow → left = []) := by
  cases empty : m.slots.isEmpty with
  | true =>
    refine ⟨[], ?_, fun _ => rfl⟩
    rw [List.append_nil, Timers.expire, if_pos empty]
    refine h.thin h.distinct (List.nil_sublist _) ?_
    intro id s there
    rw [(Table.isEmpty_iff _).mp empty id] at there
    cases there
  | false =>
    have taken := taken_sound h now
    have ids : (m.again now).map (·.1) =
        ((m.again now).map fun e => (e.1, e.2.interval)).map (·.1) := by
      rw [List.map_map]
      rfl
    rw [ids] at taken
    obtain ⟨left, sound, whole⟩ := rearmDue_sound now _ taken
    have ends := expire_eq h now empty
    rcases did : rearmDue now ((m.again now).map fun e => (e.1, e.2.interval)) (m.taken now) with
      ⟨m', _ | _⟩
    all_goals
      rw [did] at sound whole ends
      simp only [Timers.call, ends]
    · exact ⟨left, sound, fun held => absurd rfl held⟩
    · exact ⟨left, sound, fun _ => whole rfl⟩

/-- Only a request for the due callbacks may take the entry of an armed timer. -/
theorem call_sound (h : m.Sound waiting) (now : Instant) {c : Call κ} (other : c ≠ .expire) :
    (m.call now c).1.Sound waiting := by
  cases c with
  | add delay callback recurring =>
    have sound := add_sound h now delay callback recurring
    simp only [Timers.call]
    rcases did : m.add now delay callback recurring with ⟨m', _ | ⟨id, wake⟩⟩
    all_goals
      rw [did] at sound
      exact sound
  | cancel id =>
    simp only [Timers.call, Timers.cancel]
    cases m.slots.get? id with
    | none => exact h
    | some s => exact (h.erase id).compact
  | refresh id =>
    simp only [Timers.call, Timers.refresh]
    cases m.slots.get? id with
    | none => exact h
    | some s => exact rearm_sound h id s now s.interval
  | reset id interval fromNow =>
    simp only [Timers.call, Timers.reset]
    cases m.slots.get? id with
    | none => exact h
    | some s =>
      dsimp only
      split
      · exact h
      · exact rearm_sound h id s _ interval
  | isArmed id => exact h
  | hasTimer => exact h
  | size => exact h
  | next =>
    have calm : Sound { m with tickled := false } waiting :=
      ⟨h.distinct, h.sorted, h.numbered, h.bounded, h.queued⟩
    exact calm.pruneFront
  | expire => exact absurd rfl other

/-- Some timers were armed anew, and the others are as before. -/
structure Anew (now : Instant) (es : List (Nat × TimerSlot κ)) (m m' : Timers κ) : Prop where
  armed : ∀ e ∈ es, ∃ n,
    m'.slots.get? e.1 = some { e.2 with seq := n, deadline := now + e.2.interval }
  others : ∀ id, id ∉ es.map (·.1) → m'.slots.get? id = m.slots.get? id
  lastId : m'.lastId = m.lastId

/-- Timers are armed anew as long as their deadlines exist. -/
theorem rearmDue_fits (es : List (Nat × TimerSlot κ)) (ids : (es.map (·.1)).Nodup)
    (armed : ∀ e ∈ es, m.slots.get? e.1 = some e.2)
    (fits : ∀ e ∈ es, now.add? e.2.interval = some (now + e.2.interval)) :
    ∃ m', rearmDue now (es.map fun e => (e.1, e.2.interval)) m = (m', true) ∧
      Anew now es m m' := by
  induction es generalizing m with
  | nil => exact ⟨m, rfl, nofun, fun _ _ => rfl, rfl⟩
  | cons e es ih =>
    rw [List.map_cons, List.nodup_cons] at ids
    let next : Timers κ :=
      { m.arm e.1 (now + e.2.interval) with
        slots := m.slots.modify e.1 fun s =>
          { s with seq := m.lastSeq + 1, deadline := now + e.2.interval } }
    have others : ∀ id, id ≠ e.1 → next.slots.get? id = m.slots.get? id := by
      intro id other
      change (m.slots.modify e.1 _).get? id = _
      rw [Table.get?_modify, if_neg other]
    have own : next.slots.get? e.1 =
        some { e.2 with seq := m.lastSeq + 1, deadline := now + e.2.interval } := by
      change (m.slots.modify e.1 _).get? e.1 = _
      rw [Table.get?_modify, if_pos rfl, armed e List.mem_cons_self]
      rfl
    have armed' : ∀ f ∈ es, next.slots.get? f.1 = some f.2 := by
      intro f mem
      rw [others f.1 fun same => ids.1 (same ▸ List.mem_map_of_mem mem)]
      exact armed f (List.mem_cons_of_mem e mem)
    obtain ⟨m', did, anew⟩ := ih ids.2 armed' fun f mem => fits f (List.mem_cons_of_mem e mem)
    refine ⟨m', ?_, ?_, ?_, anew.lastId⟩
    · rw [List.map_cons, rearmDue, fits e List.mem_cons_self]
      exact did
    · intro f mem
      rcases List.mem_cons.mp mem with rfl | mem
      · exact ⟨m.lastSeq + 1, (anew.others _ ids.1).trans own⟩
      · exact anew.armed f mem
    · intro id out
      rw [List.map_cons, List.mem_cons, not_or] at out
      rw [anew.others id out.2, others id out.1]

/-- A timer was armed for its interval, which is no longer than its deadline therefore. -/
theorem Agree.interval_le (h : Agree m l) (there : m.slots.get? id = some s) :
    s.interval ≤ s.deadline := by
  rw [h.view] at there
  obtain ⟨p, -, rfl⟩ := Option.map_eq_some_iff.mp there
  exact Nat.le_add_left p.interval p.armedAt

/-- A request at a reading of the clock answers with the due timers, and arms the recurring ones
among them anew. -/
theorem Agree.expire_due (h : Agree m l) (read : now ≤ Instant.last) :
    (m.call now .expire).2 = .callbacks ((dueOf now m.heap m.slots).map fun e => e.2.callback) ∧
      Anew now (m.again now) (m.taken now) (m.call now .expire).1 := by
  cases empty : m.slots.isEmpty with
  | true =>
    have none : dueOf now m.heap m.slots = [] := by
      rw [List.eq_nil_iff_forall_not_mem]
      intro e mem
      have there := ((mem_dueOf h.sound now e).mp mem).1
      rw [(Table.isEmpty_iff _).mp empty] at there
      cases there
    simp only [Timers.call, Timers.expire, empty, if_true, again, taken, none, List.filter_nil]
    exact ⟨rfl, fun _ mem => absurd mem List.not_mem_nil, fun _ _ => rfl, rfl⟩
  | false =>
    have fits : ∀ e ∈ m.again now, now.add? e.2.interval = some (now + e.2.interval) := by
      intro e mem
      obtain ⟨there, due⟩ := (mem_dueOf h.sound now e).mp (List.mem_filter.mp mem).1
      exact Instant.add?_of_read read (Nat.le_trans (h.interval_le there) due)
    obtain ⟨m', did, anew⟩ := rearmDue_fits _ (again_ids_nodup h.sound now)
      (fun e mem => taken_again h.sound mem) fits
    rw [Timers.call, expire_eq h.sound now empty, did]
    exact ⟨rfl, anew⟩

/-- Calls at readings of the clock keep a set of timers tied to its record, also those that break
off. -/
theorem Agree.call (h : Agree m l) (read : now ≤ Instant.last) (c : Call κ) :
    Agree (m.call now c).1 (l.call now c).1 := by
  cases c with
  | add delay callback recurring => exact (add_agree h now delay callback recurring).2
  | cancel id => exact (cancel_agree h now id).2
  | refresh id => exact (refresh_agree h now id).2
  | reset id interval fromNow => exact (reset_agree h now id interval fromNow).2
  | next => exact (next_agree h now).2
  | expire =>
    refine (expire_agree h now ?_).2
    rw [(h.expire_due read).1]
    exact nofun
  | isArmed id => exact h
  | hasTimer => exact h
  | size => exact h

/-- The sets of timers that calls at readings of the clock lead to. -/
inductive Arises : Timers κ → Prop where
  | empty : Arises .empty
  | call {m : Timers κ} (h : Arises m) {now : Instant} (read : now ≤ Instant.last) (c : Call κ) :
      Arises (m.call now c).1

theorem Arises.agree (h : Arises m) : ∃ l, Agree m l := by
  induction h with
  | empty => exact ⟨_, agree_empty⟩
  | call _ read c ih =>
    obtain ⟨l, agree⟩ := ih
    exact ⟨_, agree.call read c⟩

theorem Arises.sound (h : Arises m) : m.Sound [] := by
  obtain ⟨l, agree⟩ := h.agree
  exact agree.sound

/-- The question for the next deadline is answered with the time to the earliest one. -/
theorem Arises.next_eq (h : Arises m) (now : Instant) :
    (m.call now .next).2 = .wait (m.earliest.map fun d => Instant.since d now) := by
  obtain ⟨l, agree⟩ := h.agree
  exact next_answer agree now

/-- A request at a reading of the clock does not break off. -/
theorem Arises.expire_due (h : Arises m) (read : now ≤ Instant.last) :
    (m.call now .expire).2 = .callbacks ((dueOf now m.heap m.slots).map fun e => e.2.callback) ∧
      Anew now (m.again now) (m.taken now) (m.call now .expire).1 := by
  obtain ⟨l, agree⟩ := h.agree
  exact agree.expire_due read

/-- A request at the deadline of an armed timer or after it hands out its callback. -/
theorem Arises.expire_calls (h : Arises m) (read : now ≤ Instant.last)
    (there : m.slots.get? id = some s) (due : s.deadline ≤ now) :
    ∃ cs, (m.call now .expire).2 = .callbacks cs ∧ s.callback ∈ cs := by
  have listed := (mem_dueOf h.sound now (id, s)).mpr ⟨there, due⟩
  exact ⟨_, (h.expire_due read).1, List.mem_map_of_mem listed⟩

/-- The timers and their entries are the same. -/
structure Intact (m m' : Timers κ) : Prop where
  slots : m'.slots = m.slots
  heap : m'.heap = m.heap

/-- A call that arms one timer and breaks off changes no timer. -/
theorem call_intact {c : Call κ} (late : (m.call now c).2 = .overflow) (other : c ≠ .expire) :
    Intact m (m.call now c).1 := by
  have rearms : ∀ {id slot start interval},
      (m.rearm id slot start interval).2.answer = (Answer.overflow : Answer κ) →
        Intact m (m.rearm id slot start interval).1 := by
    intro id slot start interval late
    simp only [Timers.rearm] at late ⊢
    cases deadline : start.add? interval with
    | none => exact ⟨rfl, rfl⟩
    | some d => rw [deadline] at late; cases late
  cases c with
  | add delay callback recurring =>
    simp only [Timers.call, Timers.add] at late ⊢
    cases deadline : now.add? delay with
    | none => exact ⟨rfl, rfl⟩
    | some d => rw [deadline] at late; cases late
  | refresh id =>
    simp only [Timers.call, Timers.refresh] at late ⊢
    cases slot : m.slots.get? id with
    | none => exact ⟨rfl, rfl⟩
    | some s => rw [slot] at late; exact rearms late
  | reset id interval fromNow =>
    simp only [Timers.call, Timers.reset] at late ⊢
    cases slot : m.slots.get? id with
    | none => exact ⟨rfl, rfl⟩
    | some s =>
      rw [slot] at late
      dsimp only at late ⊢
      split at late
      · cases late
      · next changes =>
        rw [if_neg changes]
        exact rearms late
  | cancel id => cases late
  | isArmed id => cases late
  | next => cases late
  | hasTimer => cases late
  | size => cases late
  | expire => exact absurd rfl other

/-- A call at a reading of the clock that breaks off is no request for the due callbacks, and it
leaves all timers and entries as they were. Each armed timer has its entry, so it is seen by every
later question for the next deadline, and its callback is handed out by the first later request at
its deadline or after it. -/
theorem overflow_spares_timers (h : Arises m) (read : now ≤ Instant.last) (c : Call κ)
    (late : (m.call now c).2 = .overflow) :
    c ≠ .expire ∧ Intact m (m.call now c).1 ∧
      ∀ id s, m.slots.get? id = some s →
        entryOf id s ∈ (m.call now c).1.heap ∧
        ∀ t ≤ Instant.last,
          (∃ d, ((m.call now c).1.call t .next).2 = .wait (some d) ∧
            d ≤ Instant.since s.deadline t) ∧
          (s.deadline ≤ t →
            ∃ cs, ((m.call now c).1.call t .expire).2 = .callbacks cs ∧ s.callback ∈ cs) := by
  have other : c ≠ .expire := by
    rintro rfl
    rw [(h.expire_due read).1] at late
    cases late
  have intact := call_intact late other
  have after : Arises (m.call now c).1 := h.call read c
  refine ⟨other, intact, fun id s there => ?_⟩
  rw [← intact.slots] at there
  refine ⟨after.sound.queued id s there List.not_mem_nil, fun t read' =>
    ⟨?_, after.expire_calls read' there⟩⟩
  obtain ⟨d, first, before⟩ := earliest_le there
  refine ⟨Instant.since d t, ?_, Nat.sub_le_sub_right before t⟩
  rw [after.next_eq t, first]
  rfl

/-- A timer that is due at the last moment cannot be armed anew a second later. The one beside it is
called all the same. -/
theorem overflow_spares_timers_of_far_tick :
    let far : Duration := Duration.ofParts (2 ^ 63 - 1) 0
    let second : Instant := Duration.ofParts 1 0
    let once : Timers String := ((empty : Timers String).call 0 (.add 5 "once" false)).1
    let both : Timers String := (once.call 0 (.add far "far" true)).1
    Arises both ∧ (both.call second (.refresh 2)).2 = .overflow ∧
      Intact both (both.call second (.refresh 2)).1 ∧
      ∃ cs, ((both.call second (.refresh 2)).1.call second .expire).2 = .callbacks cs ∧
        "once" ∈ cs := by
  intro far second once both
  have arises : Arises both := (Arises.empty.call (Nat.zero_le _) _).call (Nat.zero_le _) _
  have read : second ≤ Instant.last := by decide
  have late : (both.call second (.refresh 2)).2 = .overflow := by decide +kernel
  obtain ⟨-, intact, seen⟩ := overflow_spares_timers arises read (.refresh 2) late
  have there : both.slots.get? 1 = some ⟨1, 5, 5, false, "once"⟩ := by decide +kernel
  exact ⟨arises, late, intact, ((seen 1 _ there).2 second read).2 (by decide)⟩

end Timers

end Fibers
