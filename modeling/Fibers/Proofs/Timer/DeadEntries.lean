import Fibers.Proofs.Timer.Overflow
import Fibers.Proofs.Timer.Owing
import Mathlib.Data.List.Perm.Subperm

/-!
How many dead entries a set of timers drags along. Each armed timer has one live entry at most, so
the rest of the ordered list is dead. An entry dies when its timer is cancelled or armed anew, and
each call that does so looks at the whole list at once: right behind it the dead entries outnumber
the armed timers by `slack` at most. No other call adds a dead entry, but the number of armed timers
may fall when many of them expire together. So the list is bounded by the most timers that were ever
armed at once, and not by those that are armed now.
-/

namespace Fibers.Timers

open Arming

variable {κ : Type} {m : Timers κ} {now : Instant} {waiting : List Nat} {most : Nat}

/-- No two live entries are of the same timer. -/
theorem live_ids_nodup (h : m.Sound waiting) :
    ((m.heap.filter (live m.slots)).map (·.id)).Nodup := by
  have apart : m.heap.Pairwise fun a b => a.seq ≠ b.seq := List.pairwise_map.mp h.numbered
  rw [List.Nodup, List.pairwise_map, List.pairwise_filter]
  apply apart.imp
  intro a b different hlive hlive' same
  obtain ⟨s, hs, hseq⟩ := (live_iff m.slots a).mp hlive
  obtain ⟨s', hs', hseq'⟩ := (live_iff m.slots b).mp hlive'
  rw [same, hs'] at hs
  obtain rfl := Option.some.inj hs
  exact different (hseq.symm.trans hseq')

/-- There are at most as many live entries as armed timers. -/
theorem live_length_le (h : m.Sound waiting) :
    (m.heap.filter (live m.slots)).length ≤ m.size := by
  have armed : (m.heap.filter (live m.slots)).map (·.id) ⊆ m.slots.keys := by
    intro id hid
    obtain ⟨a, ha, rfl⟩ := List.mem_map.mp hid
    obtain ⟨s, hs, -⟩ := (live_iff m.slots a).mp (List.mem_filter.mp ha).2
    rw [Table.mem_keys_iff, hs]
    rfl
  have fewer := (List.Nodup.subperm (live_ids_nodup h) armed).length_le
  simpa [Table.keys, Table.size, Timers.size] using fewer

/-- Throwing out dead entries takes the entry of no armed timer. -/
theorem mem_compact {a : Arming} (ha : a ∈ m.heap) (hlive : live m.slots a = true) :
    a ∈ m.compact.heap := by
  unfold Timers.compact
  split
  · exact List.mem_filter.mpr ⟨ha, hlive⟩
  · exact ha

/-- Behind a look at the whole list, the dead entries outnumber the armed timers by little. -/
theorem compact_length_le (h : m.Sound waiting) :
    m.compact.heap.length ≤ 2 * m.compact.size + slack := by
  unfold Timers.compact
  split
  · have fewer := live_length_le h
    simp only [Timers.size] at fewer ⊢
    omega
  · next few => simpa [Timers.size] using few

theorem frontWake_length (m : Timers κ) (seq : Nat) :
    (m.frontWake seq).1.heap.length = m.heap.length ∧ (m.frontWake seq).1.size = m.size := by
  unfold Timers.frontWake
  split <;> exact ⟨rfl, rfl⟩

theorem arm_length (m : Timers κ) (id : Nat) (deadline : Instant) :
    (m.arm id deadline).heap.length = m.heap.length + 1 := by
  simp [Timers.arm, (insert_perm _ _).length_eq]

/-- An attempt to arm a timer anew fails and changes nothing, or gives the timer another slot. -/
theorem rearm_cases (m : Timers κ) (id : Nat) (slot : TimerSlot κ) (start : Instant)
    (interval : Duration) :
    m.rearm id slot start interval = (m, .overflow) ∨
      ∃ wake fresh, (m.rearm id slot start interval).2 = .armed wake ∧
        (m.rearm id slot start interval).1.slots = m.slots.put id fresh ∧
        (m.rearm id slot start interval).1.lastId = m.lastId := by
  simp only [Timers.rearm]
  cases start.add? interval with
  | none => exact .inl rfl
  | some deadline =>
    let fresh : TimerSlot κ := { slot with seq := m.lastSeq + 1, deadline, interval }
    let armed : Timers κ := { m.arm id deadline with slots := m.slots.put id fresh }
    obtain ⟨slots, last, -⟩ := frontWake_view armed.compact (m.lastSeq + 1)
    obtain ⟨slots', last', -⟩ := compact_view armed
    exact .inr ⟨_, fresh, rfl, slots.trans slots', last.trans last'⟩

/-- A timer that is armed anew leaves the whole list looked through. -/
theorem rearm_length_le (h : m.Sound waiting) {id : Nat} {slot : TimerSlot κ} {start : Instant}
    {interval : Duration} {wake : Bool} (armed : (m.rearm id slot start interval).2 = .armed wake) :
    (m.rearm id slot start interval).1.heap.length ≤
      2 * (m.rearm id slot start interval).1.size + slack := by
  simp only [Timers.rearm] at armed ⊢
  cases hadd : start.add? interval with
  | none =>
    rw [hadd] at armed
    cases armed
  | some deadline =>
    let fresh : TimerSlot κ := { slot with seq := m.lastSeq + 1, deadline, interval }
    have bound := compact_length_le (h.put id deadline (s := fresh) rfl rfl)
    have same := frontWake_length
      (compact { m.arm id deadline with slots := m.slots.put id fresh }) (m.lastSeq + 1)
    dsimp only
    rw [← same.1, ← same.2] at bound
    exact bound

/-- A timer that is cancelled leaves the whole list looked through. -/
theorem cancel_length_le (h : m.Sound waiting) {timer : Nat}
    (armed : (m.cancel timer).2.isSome = true) :
    (m.cancel timer).1.heap.length ≤ 2 * (m.cancel timer).1.size + slack := by
  simp only [Timers.cancel] at armed ⊢
  cases found : m.slots.get? timer with
  | none =>
    rw [found] at armed
    cases armed
  | some s => exact compact_length_le (h.erase timer)

/-- A call that cancels a timer or arms one anew, and says so. -/
def Retires (m : Timers κ) (now : Instant) : Call κ → Prop
  | .cancel timer => (m.call now (.cancel timer)).2 = .flag true
  | .refresh timer => (m.call now (.refresh timer)).2 = .flag true
  | .reset timer interval fromNow => ∃ wake, (m.reset now timer interval fromNow).2 = .armed wake
  | _ => False

/-- Right behind a call that makes an entry dead, the dead outnumber the armed timers by little. -/
theorem retires_length_le (h : m.Sound waiting) {c : Call κ} (retires : m.Retires now c) :
    (m.call now c).1.heap.length ≤ 2 * (m.call now c).1.size + slack := by
  cases c with
  | cancel timer =>
    apply cancel_length_le h
    exact Answer.flag.inj retires
  | refresh timer =>
    simp only [Retires, Timers.call, Timers.refresh] at retires ⊢
    cases found : m.slots.get? timer with
    | none =>
      rw [found] at retires
      cases retires
    | some s =>
      rw [found] at retires
      rcases rearm_cases m timer s now s.interval with failed | ⟨wake, -, armed, -⟩
      · dsimp only at retires
        rw [failed] at retires
        cases retires
      · exact rearm_length_le h armed
  | reset timer interval fromNow =>
    obtain ⟨wake, armed⟩ := retires
    simp only [Timers.call, Timers.reset] at armed ⊢
    cases found : m.slots.get? timer with
    | none =>
      rw [found] at armed
      cases armed
    | some s =>
      rw [found] at armed
      dsimp only at armed ⊢
      split at armed
      · cases armed
      · next changes =>
        rw [if_neg changes]
        exact rearm_length_le h armed
  | add | isArmed | next | expire | hasTimer | size => cases retires

/-- The entries are at most as many as the armed timers, another `most` and the slack. -/
def Light (most : Nat) (m : Timers κ) : Prop := m.heap.length ≤ m.size + most + slack

/-- What was looked through and holds no more than `most` timers is light. -/
theorem light_of_length_le (h : m.heap.length ≤ 2 * m.size + slack) (few : m.size ≤ most) :
    m.Light most := by
  unfold Light
  omega

theorem Light.frontWake (light : m.Light most) (seq : Nat) : (m.frontWake seq).1.Light most := by
  obtain ⟨entries, timers⟩ := frontWake_length m seq
  unfold Light at *
  omega

/-- A new timer comes with its entry. -/
theorem add_light (kept : m.Kept) (light : m.Light most) (now : Instant) (delay : Duration)
    (callback : κ) (recurring : Bool) : (m.add now delay callback recurring).1.Light most := by
  simp only [Timers.add]
  cases now.add? delay with
  | none => exact light
  | some deadline =>
    apply Light.frontWake
    have entry := arm_length m (m.lastId + 1) deadline
    have timer := Table.size_put_of_not_contains kept.free
      (⟨m.lastSeq + 1, deadline, delay, recurring, callback⟩ : TimerSlot κ)
    simp only [Light, Timers.size, Timers.arm] at light entry timer ⊢
    omega

/-- An attempt to arm a timer anew leaves the whole list looked through, or changes nothing. -/
theorem rearm_light (h : m.Sound waiting) (light : m.Light most) {timer : Nat} {slot : TimerSlot κ}
    {start : Instant} {interval : Duration}
    (few : (m.rearm timer slot start interval).1.size ≤ most) :
    (m.rearm timer slot start interval).1.Light most := by
  rcases rearm_cases m timer slot start interval with failed | ⟨wake, -, armed, -⟩
  · rw [failed]
    exact light
  · exact light_of_length_le (rearm_length_le h armed) few

/-- Each entry that is taken from the front was its timer's, is to be replaced, or was dead. -/
theorem takeDue_length_le (now : Instant) (heap : List Arming) (slots : Table Nat (TimerSlot κ))
    (h : slots.Distinct) :
    (takeDue now heap slots).heap.length + (takeDue now heap slots).recurring.length + slots.size ≤
      heap.length + (takeDue now heap slots).slots.size := by
  induction heap generalizing slots with
  | nil => simp [takeDue]
  | cons a rest ih =>
    have same := ih slots h
    simp only [takeDue, List.length_cons]
    split
    · simp
    · split
      · omega
      · next s found =>
        have there := List.length_pos_of_mem (Table.mem_of_get? found)
        have erased := Table.size_erase_of_get? h found
        have gone := ih (slots.erase a.id) (Table.distinct_erase h a.id)
        simp only [Table.size] at there same erased gone ⊢
        split
        · omega
        · split
          · simp only [List.length_cons]
            omega
          · dsimp only
            omega

/-- Each timer that is armed anew gets one entry. -/
theorem rearmDue_length_le (now : Instant) (es : List (Nat × Duration)) (m : Timers κ) :
    (rearmDue now es m).1.heap.length ≤ m.heap.length + es.length ∧
      (rearmDue now es m).1.size = m.size := by
  induction es generalizing m with
  | nil => simp [rearmDue]
  | cons e es ih =>
    simp only [rearmDue, List.length_cons]
    split
    · constructor
      · exact Nat.le_add_right _ _
      · rfl
    · next deadline _ =>
      have armed := arm_length m e.1 deadline
      obtain ⟨few, same⟩ := ih { m.arm e.1 deadline with
        slots := m.slots.modify e.1 fun s => { s with seq := m.lastSeq + 1, deadline := deadline } }
      constructor
      · simp only [Timers.arm] at few armed ⊢
        omega
      · exact same.trans (Table.size_modify m.slots e.1 _)

/-- A request for the due callbacks adds no dead entry, whether it breaks off or not. -/
theorem expire_light (h : m.Sound waiting) (light : m.Light most) (now : Instant) :
    (m.expire now).1.Light most := by
  unfold Light at *
  unfold Timers.expire
  split
  · simp
  · have taken := takeDue_length_le now m.heap m.slots h.distinct
    obtain ⟨few, same⟩ := rearmDue_length_le now (takeDue now m.heap m.slots).recurring
      { m with
        heap := (takeDue now m.heap m.slots).heap
        slots := (takeDue now m.heap m.slots).slots }
    dsimp only
    split
    all_goals
      next did =>
      rw [did] at few same
      simp only [Timers.size] at few same light ⊢
      omega

/-- Each call keeps a set of timers light that has no more than `most` of them. -/
theorem call_light (h : m.Sound waiting) (kept : m.Kept) (light : m.Light most) (now : Instant)
    (c : Call κ) (few : (m.call now c).1.size ≤ most) : (m.call now c).1.Light most := by
  cases c with
  | add delay callback recurring =>
    have next := add_light kept light now delay callback recurring
    simp only [Timers.call]
    rcases did : m.add now delay callback recurring with ⟨m', _ | ⟨id, wake⟩⟩
    all_goals
      rw [did] at next
      exact next
  | cancel timer =>
    cases armed : (m.cancel timer).2 with
    | some callback =>
      exact light_of_length_le (cancel_length_le h (by rw [armed]; rfl)) few
    | none =>
      simp only [Timers.call, Timers.cancel] at armed ⊢
      cases found : m.slots.get? timer with
      | none => exact light
      | some s =>
        rw [found] at armed
        cases armed
  | refresh timer =>
    simp only [Timers.call, Timers.refresh] at few ⊢
    cases found : m.slots.get? timer with
    | none => exact light
    | some s =>
      rw [found] at few
      exact rearm_light h light few
  | reset timer interval fromNow =>
    simp only [Timers.call, Timers.reset] at few ⊢
    cases found : m.slots.get? timer with
    | none => exact light
    | some s =>
      rw [found] at few
      dsimp only at few ⊢
      split
      · exact light
      · next changes =>
        rw [if_neg changes] at few
        exact rearm_light h light few
  | expire => exact expire_light h light now
  | next =>
    have fewer := (List.dropWhile_sublist (fun a => !live m.slots a) (l := m.heap)).length_le
    simp only [Light, Timers.call, Timers.next, Timers.pruneFront, Timers.size] at light ⊢
    omega
  | isArmed | hasTimer | size => exact light

theorem rearm_kept (kept : m.Kept) {timer : Nat} {slot : TimerSlot κ}
    (found : m.slots.get? timer = some slot) (start : Instant) (interval : Duration) :
    (m.rearm timer slot start interval).1.Kept := by
  rcases rearm_cases m timer slot start interval with failed | ⟨-, fresh, -, slots, last⟩
  · rw [failed]
    exact kept
  · constructor
    · rw [slots]
      exact Table.distinct_put kept.distinct timer fresh
    · intro id s there
      rw [slots, Table.get?_put] at there
      rw [last]
      split at there
      · next same => exact same ▸ kept.numbered timer slot found
      · exact kept.numbered id s there

theorem call_kept (kept : m.Kept) (now : Instant) (c : Call κ) : (m.call now c).1.Kept := by
  cases c with
  | add delay callback recurring =>
    have added : ∃ m' res, m.add now delay callback recurring = (m', res) ∧ m'.Kept := by
      obtain ⟨m', res, did, kept', -⟩ := add_owed kept delay callback recurring
      exact ⟨m', res, did, kept'⟩
    obtain ⟨m', res, did, kept'⟩ := added
    simp only [Timers.call, did]
    cases res <;> exact kept'
  | cancel timer =>
    obtain ⟨m', res, did, kept', -⟩ := cancel_owed kept timer
    simpa only [Timers.call, did] using kept'
  | refresh timer =>
    obtain ⟨m', res, did, kept', -⟩ := refresh_owed kept now timer
    simpa only [Timers.call, did] using kept'
  | reset timer interval fromNow =>
    simp only [Timers.call, Timers.reset]
    cases found : m.slots.get? timer with
    | none => exact kept
    | some s =>
      dsimp only
      split
      · exact kept
      · exact rearm_kept kept found _ interval
  | expire =>
    obtain ⟨m', res, did, kept', -⟩ := expire_owed kept now
    simpa only [Timers.call, did] using kept'
  | next => exact ⟨kept.distinct, kept.numbered⟩
  | isArmed | hasTimer | size => exact kept

/-- The timers after calls, each made at its own reading of the clock. -/
def after (m : Timers κ) : List (Instant × Call κ) → Timers κ
  | [] => m
  | (now, c) :: cs => after (m.call now c).1 cs

/-- The most timers that are armed at once on the way through calls. -/
def peak (m : Timers κ) : List (Instant × Call κ) → Nat
  | [] => m.size
  | (now, c) :: cs => max m.size (peak (m.call now c).1 cs)

theorem size_le_peak (m : Timers κ) (calls : List (Instant × Call κ)) :
    m.size ≤ m.peak calls ∧ (m.after calls).size ≤ m.peak calls := by
  induction calls generalizing m with
  | nil => exact ⟨Nat.le_refl _, Nat.le_refl _⟩
  | cons c calls ih =>
    obtain ⟨-, later⟩ := ih (m.call c.1 c.2).1
    simp only [peak, after]
    omega

/-- A call may take the entry of an armed timer only if it breaks off. -/
theorem call_sound_of_whole (h : m.Sound waiting) (now : Instant) (c : Call κ) :
    ∃ left, (m.call now c).1.Sound (waiting ++ left) ∧
      ((m.call now c).2 ≠ .overflow → left = []) := by
  by_cases expires : c = .expire
  · rw [expires]
    exact expire_sound h now
  · refine ⟨[], ?_, fun _ => rfl⟩
    rw [List.append_nil]
    exact call_sound h now expires

theorem after_sound (h : m.Sound waiting) (calls : List (Instant × Call κ)) :
    ∃ left, (m.after calls).Sound (waiting ++ left) ∧
      (Answer.overflow ∉ m.answers calls → left = []) := by
  induction calls generalizing m waiting with
  | nil =>
    refine ⟨[], ?_, fun _ => rfl⟩
    rw [List.append_nil]
    exact h
  | cons c calls ih =>
    obtain ⟨left, sound, whole⟩ := call_sound_of_whole h c.1 c.2
    obtain ⟨left', sound', whole'⟩ := ih sound
    refine ⟨left ++ left', ?_, fun fits => ?_⟩
    · rw [← List.append_assoc]
      exact sound'
    · simp only [Timers.answers, List.mem_cons, not_or] at fits
      rw [whole (Ne.symm fits.1), whole' fits.2, List.append_nil]

/-- Calls on the way through which no more than `most` timers are armed keep a set light. -/
theorem after_light (h : m.Sound waiting) (kept : m.Kept) (light : m.Light most)
    (calls : List (Instant × Call κ)) (few : m.peak calls ≤ most) :
    (m.after calls).Light most := by
  induction calls generalizing m waiting with
  | nil => exact light
  | cons c calls ih =>
    simp only [peak] at few
    have next := (size_le_peak (m.call c.1 c.2).1 calls).1
    obtain ⟨left, sound, -⟩ := call_sound_of_whole h c.1 c.2
    have light' := call_light h kept light c.1 c.2 (by omega)
    exact ih sound (call_kept kept c.1 c.2) light' (by omega)

theorem kept_empty : (empty : Timers κ).Kept where
  distinct := Table.distinct_empty
  numbered _ _ found := by cases found

theorem light_empty : (empty : Timers κ).Light most := Nat.zero_le _

/-- Through any row of calls the ordered list holds at most twice as many entries as timers were
ever armed at once, and the slack. Right behind a call that cancels a timer or arms one anew, twice
as many as timers are armed now are enough. Looking through the list keeps each live entry; so every
armed timer has its entry, as long as all deadlines exist. -/
theorem dead_entries_stay_few (calls : List (Instant × Call κ)) (now : Instant) (c : Call κ) :
    let m := (empty : Timers κ).after calls
    m.heap.length ≤ 2 * (empty : Timers κ).peak calls + slack ∧
      (m.Retires now c → (m.call now c).1.heap.length ≤ 2 * (m.call now c).1.size + slack) ∧
      (∀ m' : Timers κ, ∀ a ∈ m'.heap, live m'.slots a = true → a ∈ m'.compact.heap) ∧
      (Answer.overflow ∉ (empty : Timers κ).answers calls →
        ∀ id s, m.slots.get? id = some s → entryOf id s ∈ m.heap) := by
  intro m
  obtain ⟨left, sound, whole⟩ := after_sound sound_empty calls
  refine ⟨?_, retires_length_le sound, fun m' a mem alive => mem_compact mem alive, ?_⟩
  · have light := after_light sound_empty kept_empty light_empty calls (Nat.le_refl _)
    have few : m.size ≤ (empty : Timers κ).peak calls := (size_le_peak empty calls).2
    have bound : m.heap.length ≤ m.size + (empty : Timers κ).peak calls + slack := light
    omega
  · intro fits id s there
    apply sound.queued id s there
    rw [whole fits]
    exact List.not_mem_nil

/-- Nine timers expire together beside one that was armed anew as often as the list allowed. More
entries are left than the one timer accounts for, until it is cancelled. -/
theorem dead_entries_stay_few_behind_burst :
    let calls : List (Instant × Call String) :=
      List.replicate 9 (0, .add 1 "soon" false) ++ (0, .add 100 "late" false) ::
        List.replicate 74 (0, .refresh 10) ++ [(5, .expire)]
    let m := (empty : Timers String).after calls
    m.size = 1 ∧ 2 * m.size + slack < m.heap.length ∧ m.heap.length ≤ 2 * 10 + slack ∧
      m.Retires 6 (.cancel 10) ∧
      (m.call 6 (.cancel 10)).1.heap.length ≤ 2 * (m.call 6 (.cancel 10)).1.size + slack ∧
      ∃ s, m.slots.get? 10 = some s ∧ entryOf 10 s ∈ m.heap := by
  intro calls
  dsimp only
  obtain ⟨bound, retired, -, listed⟩ := dead_entries_stay_few calls 6 (.cancel 10)
  have facts : (empty : Timers String).peak calls = 10 ∧ (empty.after calls).size = 1 ∧
      (empty.after calls).heap.length = 75 ∧
      ((empty.after calls).call 6 (.cancel 10)).2 = .flag true ∧
      (empty.after calls).slots.get? 10 = some ⟨84, 100, 100, false, "late"⟩ ∧
      Answer.overflow ∉ (empty : Timers String).answers calls := by
    decide +kernel
  obtain ⟨most, size, length, retires, there, fits⟩ := facts
  rw [most] at bound
  refine ⟨size, ?_, bound, retires, retired retires, _, there, listed fits 10 _ there⟩
  rw [size, length]
  decide

end Fibers.Timers
