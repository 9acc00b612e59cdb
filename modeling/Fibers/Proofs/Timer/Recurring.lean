import Fibers.Proofs.Timer.Overflow

/-!
The beat of a recurring timer that nobody cancels or arms anew. `Course` follows it through any
calls on the set of timers, at readings of the clock that do not go back. Its callback is handed out
at most once in a request, at least an interval after the last time, and never more often than the
time that has passed has intervals. Whoever asks at its deadline gets it, and the next deadline is
then at most one interval away.
-/

namespace Fibers.Timers

open Arming

variable {κ : Type} {m m' m'' : Timers κ} {now t start : Instant} {id : Nat} {interval : Duration}
  {callback : κ} {outs : List Instant} {s : TimerSlot κ}

/-- A timer whose identity was given out has the slot that it had. -/
structure Spares (id : Nat) (m m' : Timers κ) : Prop where
  slot : m'.slots.get? id = m.slots.get? id
  lastId : m.lastId ≤ m'.lastId

namespace Spares

theorem refl (id : Nat) (m : Timers κ) : Spares id m m := ⟨rfl, Nat.le_refl _⟩

theorem trans (h : Spares id m m') (k : Spares id m' m'') : Spares id m m'' :=
  ⟨k.slot.trans h.slot, Nat.le_trans h.lastId k.lastId⟩

/-- Another timer is armed. -/
theorem arm {j : Nat} (other : j ≠ id) (deadline : Instant) (slot : TimerSlot κ) :
    Spares id m { m.arm j deadline with slots := m.slots.put j slot } :=
  ⟨Table.get?_put_other m.slots slot other.symm, Nat.le_refl _⟩

theorem compact (id : Nat) (m : Timers κ) : Spares id m m.compact := by
  obtain ⟨slots, last, -⟩ := compact_view m
  exact ⟨by rw [slots], Nat.le_of_eq last.symm⟩

theorem frontWake (id : Nat) (m : Timers κ) (seq : Nat) : Spares id m (m.frontWake seq).1 := by
  obtain ⟨slots, last, -⟩ := frontWake_view m seq
  exact ⟨by rw [slots], Nat.le_of_eq last.symm⟩

end Spares

/-- The timer that a call cancels or arms anew. -/
def Call.target : Call κ → Option Nat
  | .cancel id | .refresh id | .reset id _ _ => some id
  | _ => none

theorem rearm_spares {j : Nat} (other : j ≠ id) (slot : TimerSlot κ) (start : Instant)
    (interval : Duration) : Spares id m (m.rearm j slot start interval).1 := by
  simp only [Timers.rearm]
  cases start.add? interval with
  | none => exact .refl id m
  | some deadline =>
    have armed := Spares.arm (m := m) other deadline
      { slot with seq := m.lastSeq + 1, deadline := deadline, interval := interval }
    exact (armed.trans (.compact id _)).trans (.frontWake id _ _)

/-- A call that neither names a timer nor asks for the due callbacks leaves the timer as it is. -/
theorem call_spares (known : id ≤ m.lastId) (now : Instant) {c : Call κ} (aside : c ≠ .expire)
    (spared : c.target ≠ some id) : Spares id m (m.call now c).1 := by
  cases c with
  | add delay callback recurring =>
    have next : Spares id m { m with lastId := m.lastId + 1 } := ⟨rfl, Nat.le_succ _⟩
    simp only [Timers.call, Timers.add]
    cases now.add? delay with
    | none => exact next
    | some deadline =>
      have other : m.lastId + 1 ≠ id := by omega
      have armed := next.trans (.arm other deadline
        ⟨m.lastSeq + 1, deadline, delay, recurring, callback⟩)
      exact armed.trans (.frontWake id _ _)
  | cancel j =>
    have other : j ≠ id := fun same => spared (congrArg some same)
    simp only [Timers.call, Timers.cancel]
    cases m.slots.get? j with
    | none => exact .refl id m
    | some s =>
      have erased : Spares id m { m with slots := m.slots.erase j } :=
        ⟨by rw [Table.get?_erase, if_neg other.symm], Nat.le_refl _⟩
      exact erased.trans (.compact id _)
  | refresh j =>
    have other : j ≠ id := fun same => spared (congrArg some same)
    simp only [Timers.call, Timers.refresh]
    cases m.slots.get? j with
    | none => exact .refl id m
    | some s => exact rearm_spares other s now s.interval
  | reset j interval fromNow =>
    have other : j ≠ id := fun same => spared (congrArg some same)
    simp only [Timers.call, Timers.reset]
    cases m.slots.get? j with
    | none => exact .refl id m
    | some s =>
      dsimp only
      split
      · exact .refl id m
      · exact rearm_spares other s _ interval
  | isArmed j => exact .refl id m
  | hasTimer => exact .refl id m
  | size => exact .refl id m
  | next => exact ⟨rfl, Nat.le_refl _⟩
  | expire => exact absurd rfl aside

/-- A request leaves a timer that is not due as it is. -/
theorem Arises.expire_spares (h : Arises m) (read : now ≤ Instant.last)
    (there : m.slots.get? id = some s) (waits : now < s.deadline) :
    Spares id m (m.call now .expire).1 := by
  obtain ⟨-, anew⟩ := h.expire_due read
  have idle : id ∉ (dueOf now m.heap m.slots).map (·.1) := by
    intro mem
    obtain ⟨e, among, rfl⟩ := List.mem_map.mp mem
    obtain ⟨armed, due⟩ := (mem_dueOf h.sound now e).mp among
    obtain rfl := Option.some.inj (there.symm.trans armed)
    exact Nat.not_lt.mpr due waits
  refine ⟨?_, Nat.le_of_eq anew.lastId.symm⟩
  rw [anew.others id fun mem => idle ((List.filter_sublist.map _).subset mem), taken_get?,
    if_neg fun mem => idle ((List.filter_sublist.map _).subset mem)]

/-- How often a request at a reading of the clock calls a timer. -/
def callsOf (m : Timers κ) (now : Instant) (id : Nat) : Nat :=
  ((dueOf now m.heap m.slots).map (·.1)).count id

theorem callsOf_le_one (h : m.Sound []) (now : Instant) (id : Nat) : m.callsOf now id ≤ 1 :=
  List.nodup_iff_count_le_one.mp (dueOf_ids_nodup h now) id

/-- A request calls an armed timer if it is due. -/
theorem callsOf_eq_one_iff (h : m.Sound []) (there : m.slots.get? id = some s) (now : Instant) :
    m.callsOf now id = 1 ↔ s.deadline ≤ now := by
  constructor
  · intro once
    have mem : id ∈ (dueOf now m.heap m.slots).map (·.1) :=
      List.count_pos_iff.mp (Nat.lt_of_lt_of_eq Nat.one_pos once.symm)
    obtain ⟨e, among, rfl⟩ := List.mem_map.mp mem
    obtain ⟨armed, due⟩ := (mem_dueOf h now e).mp among
    obtain rfl := Option.some.inj (there.symm.trans armed)
    exact due
  · intro due
    refine List.count_eq_one_of_mem (dueOf_ids_nodup h now) ?_
    exact List.mem_map_of_mem ((mem_dueOf h now (id, s)).mpr ⟨there, due⟩)

/-- A request looks at each entry once. -/
theorem dueOf_length_le (now : Instant) (heap : List Arming) (slots : Table Nat (TimerSlot κ)) :
    (dueOf now heap slots).length ≤ heap.length :=
  Nat.le_trans (List.length_filterMap_le ..) (List.length_filter_le ..)

/-- What becomes of a recurring timer that was armed at `start` and is neither cancelled nor armed
anew by anybody, at readings of the clock that do not go back: the times at which its callback was
handed out, the last one first. -/
inductive Course (id : Nat) (interval : Duration) (callback : κ) (start : Instant) :
    List Instant → Instant → Timers κ → Prop where
  | added {m : Timers κ} (h : Arises m) (read : start ≤ Instant.last)
      (armed : (m.call start (.add interval callback true)).2 = .timer id) :
      Course id interval callback start [] start (m.call start (.add interval callback true)).1
  | other {outs : List Instant} {t now : Instant} {m : Timers κ}
      (run : Course id interval callback start outs t m) (later : t ≤ now)
      (read : now ≤ Instant.last) (c : Call κ) (aside : c ≠ .expire)
      (spared : c.target ≠ some id) :
      Course id interval callback start outs now (m.call now c).1
  | expire {outs : List Instant} {t now : Instant} {m : Timers κ}
      (run : Course id interval callback start outs t m) (later : t ≤ now)
      (read : now ≤ Instant.last) :
      Course id interval callback start (List.replicate (m.callsOf now id) now ++ outs) now
        (m.call now .expire).1

theorem Course.arises (run : Course id interval callback start outs now m) : Arises m := by
  induction run with
  | added h read => exact h.call read _
  | other _ _ read c _ _ ih => exact ih.call read c
  | expire _ _ read ih => exact ih.call read .expire

/-- The timer is armed, at least an interval after it was called and at most one from now, and its
callback was handed out once in an interval at most. -/
structure Beats (id : Nat) (interval : Duration) (callback : κ) (start now : Instant)
    (outs : List Instant) (m : Timers κ) (s : TimerSlot κ) : Prop where
  slot : m.slots.get? id = some s
  terms : s.interval = interval ∧ s.recurring = true ∧ s.callback = callback
  known : id ≤ m.lastId
  early : start + outs.length * interval + interval ≤ s.deadline
  apart : ∀ t ∈ outs, t + interval ≤ s.deadline
  soon : s.deadline ≤ now + interval
  rhythm : outs.Pairwise fun later earlier => earlier + interval ≤ later

namespace Beats

/-- The timer stays as it is. -/
theorem spared (h : Beats id interval callback start t outs m s) (spares : Spares id m m')
    (later : t ≤ now) : Beats id interval callback start now outs m' s where
  slot := spares.slot.trans h.slot
  terms := h.terms
  known := Nat.le_trans h.known spares.lastId
  early := h.early
  apart := h.apart
  soon := Nat.le_trans h.soon (Nat.add_le_add_right later interval)
  rhythm := h.rhythm

/-- The timer was due, was called and is armed anew. -/
theorem rearmed (h : Beats id interval callback start t outs m s) (due : s.deadline ≤ now)
    {n : Nat} (slot : m'.slots.get? id = some { s with seq := n, deadline := now + s.interval })
    (known : id ≤ m'.lastId) :
    Beats id interval callback start now (now :: outs) m'
      { s with seq := n, deadline := now + s.interval } where
  slot := slot
  terms := h.terms
  known := known
  early := by
    change start + (now :: outs).length * interval + interval ≤ now + s.interval
    have before := Nat.le_trans h.early due
    rw [h.terms.1, List.length_cons, Nat.succ_mul]
    unfold Instant Duration at *
    omega
  apart := by
    rw [h.terms.1]
    intro x mem
    rcases List.mem_cons.mp mem with rfl | mem
    · exact Nat.le_refl _
    · exact Nat.le_trans (h.apart x mem) (Nat.le_trans due (Nat.le_add_right _ _))
  soon := Nat.le_of_eq (congrArg (now + ·) h.terms.1)
  rhythm := List.pairwise_cons.mpr ⟨fun x mem => Nat.le_trans (h.apart x mem) due, h.rhythm⟩

/-- What a request makes of the timer: called if it is due, and armed for an interval at most. -/
theorem expire (h : Beats id interval callback start t outs m s) (arises : Arises m)
    (later : t ≤ now) (read : now ≤ Instant.last) :
    ∃ s', Beats id interval callback start now
        (List.replicate (m.callsOf now id) now ++ outs) (m.call now .expire).1 s' ∧
      (0 < interval → now < s'.deadline) := by
  have called := callsOf_eq_one_iff arises.sound h.slot now
  by_cases due : s.deadline ≤ now
  · obtain ⟨-, anew⟩ := arises.expire_due read
    have listed : (id, s) ∈ m.again now :=
      List.mem_filter.mpr ⟨(mem_dueOf arises.sound now _).mpr ⟨h.slot, due⟩, h.terms.2.1⟩
    obtain ⟨n, there⟩ := anew.armed _ listed
    have known : id ≤ (m.call now .expire).1.lastId :=
      Nat.le_trans h.known (Nat.le_of_eq anew.lastId.symm)
    rw [called.mpr due]
    refine ⟨_, h.rearmed due there known, fun positive => ?_⟩
    exact Nat.lt_add_of_pos_right (h.terms.1 ▸ positive)
  · have waits : now < s.deadline := Nat.lt_of_not_le due
    have never : m.callsOf now id = 0 := by
      have most := callsOf_le_one arises.sound now id
      have uncalled := mt called.mp due
      omega
    rw [never]
    exact ⟨s, h.spared (arises.expire_spares read h.slot waits) later, fun _ => waits⟩

end Beats

/-- A timer that was just armed. -/
theorem add_beats (armed : (m.call start (.add interval callback true)).2 = .timer id) :
    ∃ s, Beats id interval callback start start []
      (m.call start (.add interval callback true)).1 s := by
  cases deadline : start.add? interval with
  | none =>
    simp only [Timers.call, Timers.add, deadline] at armed
    cases armed
  | some d =>
    obtain rfl := Instant.eq_of_add? deadline
    let slot : TimerSlot κ := ⟨m.lastSeq + 1, start + interval, interval, true, callback⟩
    let next : Timers κ :=
      { { m with lastId := m.lastId + 1 }.arm (m.lastId + 1) (start + interval) with
        slots := m.slots.put (m.lastId + 1) slot }
    have done : m.call start (.add interval callback true) =
        ((next.frontWake (m.lastSeq + 1)).1, .timer (m.lastId + 1)) := by
      simp only [Timers.call, Timers.add, deadline]
      rfl
    rw [done] at armed ⊢
    obtain rfl := Answer.timer.inj armed
    have spares := Spares.frontWake (m.lastId + 1) next (m.lastSeq + 1)
    refine ⟨slot, ?_⟩
    exact {
      slot := spares.slot.trans (Table.get?_put_self ..)
      terms := ⟨rfl, rfl, rfl⟩
      known := spares.lastId
      early := Nat.le_of_eq (by rw [List.length_nil, Nat.zero_mul, Nat.add_zero])
      apart _ mem := absurd mem List.not_mem_nil
      soon := Nat.le_refl _
      rhythm := .nil }

theorem Course.beats (run : Course id interval callback start outs now m) :
    ∃ s, Beats id interval callback start now outs m s := by
  induction run with
  | added _ _ armed => exact add_beats armed
  | @other _ _ now _ _ later _ c aside spared ih =>
    obtain ⟨s, beats⟩ := ih
    exact ⟨s, beats.spared (call_spares beats.known now aside spared) later⟩
  | expire run later read ih =>
    obtain ⟨s, beats⟩ := ih
    obtain ⟨s', beats', -⟩ := beats.expire run.arises later read
    exact ⟨s', beats'⟩

/-- A recurring timer that is left alone is called at most once in an interval, and at most once in
a request. A request always answers, with the due callbacks. At the timer's deadline or later it
calls the timer, and after it the deadline lies ahead by at most one interval; a timer that recurs
without an interval is called in each request. -/
theorem recurring_timer_keeps_time (run : Course id interval callback start outs now m)
    (later : now ≤ t) (read : t ≤ Instant.last) :
    (0 < interval → outs.length ≤ (t - start) / interval) ∧
      outs.Pairwise (fun later earlier => earlier + interval ≤ later) ∧
      (m.call t .expire).2 = .callbacks ((dueOf t m.heap m.slots).map fun e => e.2.callback) ∧
      (dueOf t m.heap m.slots).length ≤ m.heap.length ∧ m.callsOf t id ≤ 1 ∧
      ∃ s s', m.slots.get? id = some s ∧ s.callback = callback ∧
        (m.callsOf t id = 1 ↔ s.deadline ≤ t) ∧ (interval = 0 → m.callsOf t id = 1) ∧
        (m.call t .expire).1.slots.get? id = some s' ∧
        (0 < interval → t < s'.deadline) ∧ s'.deadline ≤ t + interval := by
  obtain ⟨s, beats⟩ := run.beats
  have arises := run.arises
  obtain ⟨s', beats', ahead⟩ := beats.expire arises later read
  have called := callsOf_eq_one_iff arises.sound beats.slot t
  refine ⟨fun positive => ?_, beats.rhythm, (arises.expire_due read).1,
    dueOf_length_le t m.heap m.slots, callsOf_le_one arises.sound t id, s, s', beats.slot,
    beats.terms.2.2, called, fun none => called.mpr ?_, beats'.slot, ahead, beats'.soon⟩
  · rw [Nat.le_div_iff_mul_le positive]
    have early := Nat.le_trans beats.early beats.soon
    unfold Instant Duration at *
    omega
  · have soon := beats.soon
    rw [none] at soon
    exact Nat.le_trans soon later

/-- A timer of interval 2 that is first asked for after two and a half intervals is called once, and
next at its new deadline. -/
theorem starved_timer_keeps_time :
    let armed : Timers String := ((empty : Timers String).call 0 (.add 2 "tick" true)).1
    let late : Timers String := (armed.call 5 .expire).1
    Course 1 2 "tick" 0 [5] 5 late ∧ [5].length ≤ (7 - 0) / 2 ∧
      (late.call 7 .expire).2 = .callbacks ["tick"] ∧ late.callsOf 7 1 = 1 ∧
      ∃ s, (late.call 7 .expire).1.slots.get? 1 = some s ∧ 7 < s.deadline := by
  intro armed late
  have once : armed.callsOf 5 1 = 1 := by decide
  have added : Course 1 2 "tick" 0 [] 0 armed := .added .empty (by decide) (by decide)
  have run : Course 1 2 "tick" 0 [5] 5 late := by
    have run := added.expire (Nat.zero_le 5) (by decide)
    rw [once] at run
    exact run
  obtain ⟨seldom, -, answer, -, -, s, s', there, -, called, -, there', ahead, -⟩ :=
    recurring_timer_keeps_time run (t := 7) (by decide) (by decide)
  have due : late.slots.get? 1 = some ⟨2, 7, 2, true, "tick"⟩ := by decide
  obtain rfl := Option.some.inj (there.symm.trans due)
  have listed : ((dueOf 7 late.heap late.slots).map fun e => e.2.callback) = ["tick"] := by decide
  rw [listed] at answer
  exact ⟨run, seldom (by decide), answer, called.mpr (by decide), s', there', ahead (by decide)⟩

end Fibers.Timers
