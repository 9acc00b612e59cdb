import Fibers.Proofs.Timer.Agree

/-!
What a set of timers owes: the callback of every armed one-shot timer. A timer that is armed owes
its callback from then on; to cancel it takes the callback out, to arm it anew changes nothing, and
the callbacks of due timers are those that the set owes no longer, besides those of recurring
timers.
-/

namespace Fibers.Timers

variable {κ : Type} {m m' : Timers κ} {id : Nat} {now : Instant}

/-- What the timer of a slot owes. -/
def owing (s : TimerSlot κ) : List κ :=
  if s.recurring then [] else [s.callback]

/-- The callbacks that are owed. -/
def owedBy (slots : Table Nat (TimerSlot κ)) : List κ := slots.values.flatMap owing

def owed (m : Timers κ) : List κ := owedBy m.slots

/-- Each timer has one slot, and an identity that was given. -/
structure Kept (m : Timers κ) : Prop where
  distinct : m.slots.Distinct
  numbered : ∀ id s, m.slots.get? id = some s → id ≤ m.lastId

/-- The next identity is still to be given. -/
theorem Kept.free (kept : m.Kept) : m.slots.contains (m.lastId + 1) = false := by
  cases found : m.slots.get? (m.lastId + 1) with
  | none => rw [Table.contains, found, Option.isSome_none]
  | some s => exact absurd (kept.numbered _ _ found) (Nat.not_succ_le_self _)

/-- Every timer of a set is one of another set, with the same callback. -/
def Inherits (slots slots' : Table Nat (TimerSlot κ)) : Prop :=
  ∀ id s', slots'.get? id = some s' →
    ∃ s, slots.get? id = some s ∧ s.recurring = s'.recurring ∧ s.callback = s'.callback

theorem Inherits.refl (slots : Table Nat (TimerSlot κ)) : Inherits slots slots :=
  fun _ s h => ⟨s, h, rfl, rfl⟩

theorem Inherits.trans {slots slots' slots'' : Table Nat (TimerSlot κ)} (h : Inherits slots slots')
    (g : Inherits slots' slots'') : Inherits slots slots'' := by
  intro id s'' found
  obtain ⟨s', found', recurring', callback'⟩ := g id s'' found
  obtain ⟨s, found, recurring, callback⟩ := h id s' found'
  exact ⟨s, found, recurring.trans recurring', callback.trans callback'⟩

theorem inherits_erase (slots : Table Nat (TimerSlot κ)) (id : Nat) :
    Inherits slots (slots.erase id) := by
  intro j s found
  rw [Table.get?_erase] at found
  split at found
  · cases found
  · exact ⟨s, found, rfl, rfl⟩

theorem owedBy_erase {slots : Table Nat (TimerSlot κ)} (h : slots.Distinct) {s : TimerSlot κ}
    (found : slots.get? id = some s) : (owedBy slots).Perm (owing s ++ owedBy (slots.erase id)) :=
  (Table.values_erase h found).flatMap_right _

/-- An armed timer owes its callback, unless it is recurring. -/
theorem add_owed (kept : m.Kept) (delay : Duration) (callback : κ) (recurring : Bool) :
    ∃ m' res, m.add now delay callback recurring = (m', res) ∧ m'.Kept ∧
      m'.lastId = m.lastId + 1 ∧
      (res = none ∧ m'.slots = m.slots ∨
        ∃ wake slot, res = some (m.lastId + 1, wake) ∧ slot.callback = callback ∧
          slot.recurring = recurring ∧ m'.slots = m.slots.put (m.lastId + 1) slot ∧
          m'.owed = owing slot ++ m.owed) := by
  have later : ∀ j s, m.slots.get? j = some s → j ≤ m.lastId + 1 := fun j s found =>
    Nat.le_succ_of_le (kept.numbered j s found)
  unfold add
  cases now.add? delay with
  | none => exact ⟨_, _, rfl, ⟨kept.distinct, later⟩, rfl, .inl ⟨rfl, rfl⟩⟩
  | some deadline =>
    dsimp only
    let slot : TimerSlot κ := ⟨m.lastSeq + 1, deadline, delay, recurring, callback⟩
    let armed : Timers κ :=
      { { m with lastId := m.lastId + 1 }.arm (m.lastId + 1) deadline with
        slots := m.slots.put (m.lastId + 1) slot }
    obtain ⟨slots, id, _⟩ := frontWake_view armed (m.lastSeq + 1)
    have slots : (armed.frontWake (m.lastSeq + 1)).1.slots = m.slots.put (m.lastId + 1) slot :=
      slots
    refine ⟨_, _, rfl, ⟨?_, fun j s found => ?_⟩, id, .inr ⟨_, slot, rfl, rfl, rfl, slots, ?_⟩⟩
    · change (armed.frontWake (m.lastSeq + 1)).1.slots.Distinct
      rw [slots]
      exact Table.distinct_put kept.distinct _ _
    · have found : (armed.frontWake (m.lastSeq + 1)).1.slots.get? j = some s := found
      rw [slots, Table.get?_put] at found
      change j ≤ (armed.frontWake (m.lastSeq + 1)).1.lastId
      rw [id]
      split at found
      · next same => exact same ▸ Nat.le_refl _
      · exact later j s found
    · change owedBy (armed.frontWake (m.lastSeq + 1)).1.slots = _
      rw [slots, owedBy, Table.values_put kept.free]
      rfl

/-- A timer that is cancelled owes its callback no longer. -/
theorem cancel_owed (kept : m.Kept) (id : Nat) :
    ∃ m' res, m.cancel id = (m', res) ∧ m'.Kept ∧ m'.lastId = m.lastId ∧
      Inherits m.slots m'.slots ∧
      (res = none ∧ m' = m ∨
        ∃ s, res = some s.callback ∧ m.slots.get? id = some s ∧
          m.owed.Perm (owing s ++ m'.owed)) := by
  unfold cancel
  cases found : m.slots.get? id with
  | none => exact ⟨_, _, rfl, kept, rfl, .refl _, .inl ⟨rfl, rfl⟩⟩
  | some s =>
    dsimp only
    obtain ⟨slots, last, _⟩ := compact_view { m with slots := m.slots.erase id }
    have slots : (compact { m with slots := m.slots.erase id }).slots = m.slots.erase id := slots
    have erased := inherits_erase m.slots id
    refine ⟨_, _, rfl, ⟨?_, fun j x there => ?_⟩, last, ?_, .inr ⟨s, rfl, rfl, ?_⟩⟩
    · rw [slots]
      exact Table.distinct_erase kept.distinct _
    · rw [slots] at there
      obtain ⟨y, there, _⟩ := erased j x there
      rw [last]
      exact kept.numbered j y there
    · rw [slots]
      exact erased
    · rw [owed, owed, slots]
      exact owedBy_erase kept.distinct found

/-- To arm a timer anew leaves what is owed as it is. -/
theorem refresh_owed (kept : m.Kept) (now : Instant) (id : Nat) :
    ∃ m' res, m.refresh now id = (m', res) ∧ m'.Kept ∧ m'.lastId = m.lastId ∧
      Inherits m.slots m'.slots ∧ m.owed.Perm m'.owed := by
  unfold refresh
  cases found : m.slots.get? id with
  | none => exact ⟨m, _, rfl, kept, rfl, .refl _, .refl _⟩
  | some s =>
    dsimp only
    unfold rearm
    cases now.add? s.interval with
    | none => exact ⟨m, _, rfl, kept, rfl, .refl _, .refl _⟩
    | some deadline =>
      dsimp only
      let slot : TimerSlot κ := { s with seq := m.lastSeq + 1, deadline := deadline }
      let armed : Timers κ := { m.arm id deadline with slots := m.slots.put id slot }
      obtain ⟨slots, last, _⟩ := frontWake_view armed.compact (m.lastSeq + 1)
      obtain ⟨slots', last', _⟩ := compact_view armed
      have slots : (armed.compact.frontWake (m.lastSeq + 1)).1.slots = m.slots.put id slot :=
        slots.trans slots'
      have last : (armed.compact.frontWake (m.lastSeq + 1)).1.lastId = m.lastId :=
        last.trans last'
      have put : Inherits m.slots (m.slots.put id slot) := by
        intro j x there
        rw [Table.get?_put] at there
        split at there
        · next same =>
          obtain rfl := Option.some.inj there
          exact ⟨s, same ▸ found, rfl, rfl⟩
        · exact ⟨x, there, rfl, rfl⟩
      refine ⟨_, _, rfl, ⟨?_, fun j x there => ?_⟩, last, ?_, ?_⟩
      · change (armed.compact.frontWake (m.lastSeq + 1)).1.slots.Distinct
        rw [slots]
        exact Table.distinct_put kept.distinct _ _
      · have there : (armed.compact.frontWake (m.lastSeq + 1)).1.slots.get? j = some x := there
        rw [slots] at there
        obtain ⟨y, there, _⟩ := put j x there
        exact last.symm ▸ kept.numbered j y there
      · change Inherits m.slots (armed.compact.frontWake (m.lastSeq + 1)).1.slots
        rw [slots]
        exact put
      · change m.owed.Perm (owedBy (armed.compact.frontWake (m.lastSeq + 1)).1.slots)
        rw [slots]
        change m.owed.Perm (owing s ++ owedBy (m.slots.erase id))
        exact owedBy_erase kept.distinct found

/-- The callbacks of one-shot timers that are taken as due are owed no longer. -/
theorem takeDue_owed (now : Instant) (heap : List Arming) {slots : Table Nat (TimerSlot κ)}
    (distinct : slots.Distinct) :
    let due := takeDue now heap slots
    due.slots.Distinct ∧ Inherits slots due.slots ∧
      (owedBy slots).Perm
        (((due.callbacks.filter (!·.2)).map (·.1)) ++ owedBy due.slots) ∧
      ∀ x ∈ due.callbacks, ∃ id s, slots.get? id = some s ∧ s.callback = x.1 ∧
        s.recurring = x.2 := by
  induction heap generalizing slots with
  | nil => exact ⟨distinct, .refl _, .refl _, nofun⟩
  | cons a rest ih =>
    unfold takeDue
    split
    · exact ⟨distinct, .refl _, .refl _, nofun⟩
    · cases found : slots.get? a.id with
      | none => exact ih distinct
      | some s =>
        dsimp only
        split
        · exact ih distinct
        · split
          · next recurs =>
            obtain ⟨distinct', inherits, owed, taken⟩ := ih distinct
            refine ⟨distinct', inherits, ?_, List.forall_mem_cons.mpr
              ⟨⟨a.id, s, found, rfl, recurs⟩, taken⟩⟩
            simpa using owed
          · next once =>
            have once : s.recurring = false := by simpa using once
            obtain ⟨distinct', inherits, owed, taken⟩ :=
              ih (Table.distinct_erase distinct a.id)
            refine ⟨distinct', (inherits_erase slots a.id).trans inherits, ?_,
              List.forall_mem_cons.mpr ⟨⟨a.id, s, found, rfl, once⟩, fun x mem => ?_⟩⟩
            · have own : owing s = [s.callback] := by simp [owing, once]
              have first := owedBy_erase distinct found
              rw [own] at first
              exact first.trans (by simpa using owed.cons s.callback)
            · obtain ⟨id, y, there, rest⟩ := taken x mem
              obtain ⟨z, there, recurring, callback⟩ := inherits_erase slots a.id id y there
              exact ⟨id, z, there, callback.trans rest.1, recurring.trans rest.2⟩

/-- To arm the recurring timers anew leaves what is owed as it is. -/
theorem rearmDue_owed (now : Instant) (recurring : List (Nat × Duration)) (kept : m.Kept) :
    ∃ m' ok, rearmDue now recurring m = (m', ok) ∧ m'.Kept ∧ m'.lastId = m.lastId ∧
      Inherits m.slots m'.slots ∧ m'.owed = m.owed := by
  induction recurring generalizing m with
  | nil => exact ⟨m, true, rfl, kept, rfl, .refl _, rfl⟩
  | cons e rest ih =>
    obtain ⟨id, interval⟩ := e
    unfold rearmDue
    cases now.add? interval with
    | none => exact ⟨m, false, rfl, kept, rfl, .refl _, rfl⟩
    | some deadline =>
      dsimp only
      let f : TimerSlot κ → TimerSlot κ := fun s =>
        { s with seq := m.lastSeq + 1, deadline := deadline }
      let armed : Timers κ := { m.arm id deadline with slots := m.slots.modify id f }
      have inherits : Inherits m.slots armed.slots := by
        intro j s' found
        have found : (m.slots.modify id f).get? j = some s' := found
        rw [Table.get?_modify] at found
        split at found
        · obtain ⟨s, there, rfl⟩ := Option.map_eq_some_iff.mp found
          exact ⟨s, there, rfl, rfl⟩
        · exact ⟨s', found, rfl, rfl⟩
      have kept' : armed.Kept := by
        refine ⟨Table.distinct_modify kept.distinct _ _, fun j s found => ?_⟩
        obtain ⟨s, there, _⟩ := inherits j s found
        exact kept.numbered j s there
      have same : armed.owed = m.owed := by
        change owedBy (m.slots.modify id f) = owedBy m.slots
        simp only [owedBy, Table.values, Table.modify, List.map_map, List.flatMap_map]
        refine List.flatMap_congr fun e _ => ?_
        simp only [Function.comp]
        split <;> rfl
      obtain ⟨m', ok, res, kept'', last, inherits', owed⟩ := ih kept'
      exact ⟨m', ok, res, kept'', last, inherits.trans inherits', owed.trans same⟩

/-- What is answered as due or lost is owed no longer, or it belongs to a recurring timer. -/
theorem expire_owed (kept : m.Kept) (now : Instant) :
    ∃ m' res, m.expire now = (m', res) ∧ m'.Kept ∧ m'.lastId = m.lastId ∧
      Inherits m.slots m'.slots ∧
      m.owed.Perm
        (((takeDue now m.heap m.slots).callbacks.filter (!·.2)).map (·.1) ++ m'.owed) ∧
      (∀ x ∈ (takeDue now m.heap m.slots).callbacks, ∃ id s, m.slots.get? id = some s ∧
        s.callback = x.1 ∧ s.recurring = x.2) ∧
      (res = .overflow (((takeDue now m.heap m.slots).callbacks.filter (!·.2)).map (·.1)) ∨
        res = .due ((takeDue now m.heap m.slots).callbacks.map (·.1))) := by
  obtain ⟨distinct, inherits, owed, taken⟩ := takeDue_owed now m.heap kept.distinct
  unfold expire
  split
  · next empty =>
    have nothing : (takeDue now m.heap m.slots).callbacks = [] := by
      refine List.eq_nil_iff_forall_not_mem.mpr fun x mem => ?_
      obtain ⟨id, s, found, _⟩ := taken x mem
      rw [(Table.isEmpty_iff _).mp empty] at found
      cases found
    refine ⟨_, _, rfl, ⟨kept.distinct, kept.numbered⟩, rfl, .refl _, ?_⟩
    rw [nothing]
    exact ⟨.refl _, fun x mem => absurd mem List.not_mem_nil, .inr rfl⟩
  · let left : Timers κ :=
      { m with
        heap := (takeDue now m.heap m.slots).heap
        slots := (takeDue now m.heap m.slots).slots }
    have kept' : left.Kept := by
      refine ⟨distinct, fun j s found => ?_⟩
      obtain ⟨s, there, _⟩ := inherits j s found
      exact kept.numbered j s there
    obtain ⟨m', ok, res, kept'', last, inherits', same⟩ :=
      rearmDue_owed now (takeDue now m.heap m.slots).recurring kept'
    have res : rearmDue now (takeDue now m.heap m.slots).recurring
        { m with
          heap := (takeDue now m.heap m.slots).heap
          slots := (takeDue now m.heap m.slots).slots } = (m', ok) := res
    have owed' : m.owed.Perm
        (((takeDue now m.heap m.slots).callbacks.filter (!·.2)).map (·.1) ++ m'.owed) := by
      rw [same]
      exact owed
    dsimp only
    rw [res]
    cases ok with
    | false => exact ⟨_, _, rfl, kept'', last, inherits.trans inherits', owed', taken, .inl rfl⟩
    | true => exact ⟨_, _, rfl, kept'', last, inherits.trans inherits', owed', taken, .inr rfl⟩

end Fibers.Timers
