import Fibers.Proofs.Reactor.Registry

/-!
The operations of a descriptor table that holds the handlers of a registry. Each asks the poller for
the change of what is armed; when the poller refuses, the table stays as it is, and when it agrees,
the table holds what the registry told and the handlers that the registry gives out are answered.
-/

namespace Fibers.Reactor.FdTable.Holds

variable {η π : Type} {t : FdTable η} {m : Registry η} {fd : Int} {e : Event} {h : η}
  {poller : Poller π} {p p' : π} {cause : OsError}

theorem union_isEmpty (a : Event) (single : e.isSingle = true) : (a.union e).isEmpty = false := by
  obtain ⟨_ | _, _ | _⟩ := a <;> rcases Event.eq_of_isSingle single with rfl | rfl <;> rfl

theorem slot_armed_contains (holds : t.Holds m) (fd : Int) (single : e.isSingle = true) :
    (t.slot fd).armed.contains e = m.contains (fd, e) := by
  rw [holds.slot]
  exact m.armed_contains fd single

/-- An event has at most one handler. -/
theorem arm_occupied (holds : t.Holds m) (single : e.isSingle = true)
    (occupied : m.contains (fd, e) = true) (h : η) :
    t.arm poller p fd e h = (p, t, .violated (.alreadyWaiting fd e)) := by
  have armed : (t.slot fd).armed.contains e = true := by
    rw [holds.slot_armed_contains fd single, occupied]
  simp only [arm, armed, if_true]

/-- The poller is told of an event more by `register` if it is the first one of its number. -/
theorem arm_eq (holds : t.Holds m) (single : e.isSingle = true)
    (free : m.contains (fd, e) = false) (h : η) :
    t.arm poller p fd e h =
      match poller.tell p fd (m.armed fd) ((m.armed fd).union e) with
      | (p', .error cause) =>
        (p', t, .refused (if (m.armed fd).isEmpty then .add else .modify) ((m.armed fd).union e)
          cause)
      | (p', .ok ()) =>
        (p', { t with pending := t.pending + 1 }.setSlot fd
          (({ m.slot fd with armed := (m.armed fd).union e }).setHandler e (some h)), .done) := by
  have armed : (m.armed fd).contains e = false := by rw [m.armed_contains fd single, free]
  have handler : ∀ armed : Event,
      ({ m.slot fd with armed := armed } : Slot η).handler e = none := by
    intro armed
    change (m.slot fd).handler e = none
    rw [m.slot_handler fd single]
    rw [Table.contains_eq_isSome] at free
    cases found : m.get? (fd, e) with
    | none => rfl
    | some h =>
      rw [found] at free
      cases free
  have mask : (m.slot fd).armed = m.armed fd := rfl
  obtain ⟨register, modify, deregister⟩ := poller
  unfold arm Poller.tell
  simp only [holds.slot fd, mask, armed, union_isEmpty _ single, if_false, Bool.false_eq_true,
    handler]
  cases (m.armed fd).isEmpty with
  | true =>
    simp only [if_true]
    rcases register p fd ((m.armed fd).union e) with ⟨p', _ | _⟩ <;> rfl
  | false =>
    simp only [if_false, Bool.false_eq_true]
    rcases modify p fd ((m.armed fd).union e) with ⟨p', _ | _⟩ <;> rfl

theorem rearm_eq (poller : Poller π) (p : π) (fd : Int) {before : Event} (after : Event)
    (armed : before.isEmpty = false) : rearm poller p fd after = poller.tell p fd before after := by
  rw [rearm, Poller.tell, armed]
  rfl

theorem armed_isEmpty_of_get? (single : e.isSingle = true) (found : m.get? (fd, e) = some h) :
    (m.armed fd).isEmpty = false := by
  have contains : m.contains (fd, e) = true := by
    rw [Table.contains_eq_isSome, found]
    rfl
  rw [← m.armed_contains fd single] at contains
  rcases Event.eq_of_isSingle single with rfl | rfl
  · rw [Event.contains_readable] at contains
    simp [Event.isEmpty, contains]
  · rw [Event.contains_writable] at contains
    simp [Event.isEmpty, contains]

/-- A single event of a number fires. -/
theorem trigger (holds : t.Holds m) (single : e.isSingle = true)
    (found : m.get? (fd, e) = some h) :
    ∃ t', t.trigger fd e = (t', .ok (some h)) ∧ t'.settle.Holds (m.erase (fd, e)) := by
  have armed : (m.slot fd).armed.contains e = true := by
    change (m.armed fd).contains e = true
    rw [m.armed_contains fd single, Table.contains_eq_isSome, found]
    rfl
  have handler : ∀ armed : Event,
      ({ m.slot fd with armed := armed } : Slot η).handler e = some h := by
    intro armed
    change (m.slot fd).handler e = some h
    rw [m.slot_handler fd single, found]
  refine ⟨_, ?_, holds.erase single found⟩
  simp only [FdTable.trigger, holds.slot fd, armed, single, Bool.not_true, if_false,
    Bool.false_eq_true, if_true, handler]
  rfl

/-- Some events of a number fire, those that are armed. -/
theorem fireEach (holds : t.Holds m) (fd : Int) (es : List Event)
    (single : ∀ e ∈ es, e.isSingle = true) :
    ∃ t', t.fireEach fd es = (t', .ok (m.fire fd es).2) ∧ t'.Holds (m.fire fd es).1 := by
  induction es generalizing t m with
  | nil => exact ⟨t, rfl, holds⟩
  | cons e es ih =>
    have single' := fun x hx => single x (List.mem_cons_of_mem e hx)
    have contains := holds.slot_armed_contains fd (single e List.mem_cons_self)
    unfold FdTable.fireEach Registry.fire
    cases found : m.get? (fd, e) with
    | none =>
      rw [Table.contains_eq_isSome, found] at contains
      rw [contains]
      exact ih holds single'
    | some h =>
      rw [Table.contains_eq_isSome, found] at contains
      obtain ⟨v, fired, holds'⟩ := holds.trigger (single e List.mem_cons_self) found
      obtain ⟨t', rest, holds''⟩ := ih holds' single'
      refine ⟨t', ?_, holds''⟩
      simp only [contains, Option.isSome_some, if_true, fired, rest]
      rfl

/-- A number with a handler has a slot in the table. -/
theorem lookup?_of_get? (holds : t.Holds m) (found : m.get? (fd, e) = some h) :
    t.lookup? fd = some (m.slot fd) := by
  have contains : m.contains (fd, e) = true := by
    rw [Table.contains_eq_isSome, found]
    rfl
  rw [holds.lookup?, if_pos (holds.known fd e contains).2]

theorem slot_contains_of_get? (single : e.isSingle = true) (found : m.get? (fd, e) = some h) :
    (m.slot fd).armed.contains e = true := by
  change (m.armed fd).contains e = true
  rw [m.armed_contains fd single, Table.contains_eq_isSome, found]
  rfl

theorem delete_absent (holds : t.Holds m) (single : e.isSingle = true)
    (absent : m.get? (fd, e) = none) : t.delete poller p fd e = (p, t, .absent) := by
  have armed : (m.slot fd).armed.contains e = false := by
    change (m.armed fd).contains e = false
    rw [m.armed_contains fd single, Table.contains_eq_isSome, absent]
    rfl
  unfold delete
  rw [holds.lookup?]
  split
  · rfl
  · next s hs =>
    split at hs
    · obtain rfl := Option.some.inj hs
      rw [armed]
      rfl
    · cases hs

theorem delete_refused (holds : t.Holds m) (single : e.isSingle = true)
    (found : m.get? (fd, e) = some h)
    (told : poller.tell p fd (m.armed fd) ((m.armed fd).without e) = (p', .error cause)) :
    t.delete poller p fd e = (p', t, .refused cause) := by
  rw [← rearm_eq _ _ _ _ (armed_isEmpty_of_get? single found)] at told
  have told' : rearm poller p fd ((m.slot fd).armed.without e) = (p', .error cause) := told
  simp only [delete, holds.lookup?_of_get? found, slot_contains_of_get? single found, told',
    Bool.not_true, if_false, Bool.false_eq_true]

theorem delete_done (holds : t.Holds m) (single : e.isSingle = true)
    (found : m.get? (fd, e) = some h)
    (told : poller.tell p fd (m.armed fd) ((m.armed fd).without e) = (p', .ok ())) :
    ∃ t', t.delete poller p fd e = (p', t', .done [h]) ∧ t'.Holds (m.erase (fd, e)) := by
  rw [← rearm_eq _ _ _ _ (armed_isEmpty_of_get? single found)] at told
  have told' : rearm poller p fd ((m.slot fd).armed.without e) = (p', .ok ()) := told
  have handler : ∀ armed : Event,
      ({ m.slot fd with armed := armed } : Slot η).handler e = some h := by
    intro armed
    change (m.slot fd).handler e = some h
    rw [m.slot_handler fd single, found]
  refine ⟨_, ?_, holds.erase single found⟩
  simp only [delete, holds.lookup?_of_get? found, slot_contains_of_get? single found, told', single,
    Bool.not_true, if_false, Bool.false_eq_true, if_true, handler]
  rfl

/-- To cancel is to delete, but for what becomes of the handler. -/
theorem cancel_eq_delete (holds : t.Holds m) (single : e.isSingle = true) :
    t.cancel poller p fd e = t.delete poller p fd e := by
  unfold cancel delete
  rw [holds.lookup?]
  split
  · rfl
  · next s hs =>
    have slot : s = m.slot fd := by
      split at hs
      · exact (Option.some.inj hs).symm
      · cases hs
    subst slot
    cases armed : (m.slot fd).armed.contains e with
    | false => rfl
    | true =>
      have trigger : t.trigger fd e =
          (t.setSlot fd
            (({ m.slot fd with armed := (m.slot fd).armed.without e }).setHandler e none),
            .ok
              (({ m.slot fd with armed := (m.slot fd).armed.without e } : Slot η).handler e)) := by
        simp only [FdTable.trigger, holds.slot fd, armed, single, Bool.not_true, if_false,
          Bool.false_eq_true, if_true]
      dsimp only
      rw [trigger, single]
      rcases rearm poller p fd ((m.slot fd).armed.without e) with ⟨p', _ | _⟩ <;> rfl

theorem cancelAll_absent (holds : t.Holds m) (empty : (m.armed fd).isEmpty = true) :
    t.cancelAll poller p fd = (p, t, .absent) := by
  have empty' : (m.slot fd).armed.isEmpty = true := empty
  unfold cancelAll
  rw [holds.lookup?]
  split
  · rfl
  · next s hs =>
    split at hs
    · obtain rfl := Option.some.inj hs
      rw [empty']
      rfl
    · cases hs

/-- A number of which something is armed has a slot in the table. -/
theorem lookup?_of_armed (holds : t.Holds m) (armed : (m.armed fd).isEmpty = false) :
    t.lookup? fd = some (m.slot fd) := by
  have : m.contains (fd, .readable) = true ∨ m.contains (fd, .writable) = true := by
    unfold Registry.armed Event.isEmpty at armed
    cases hr : m.contains (fd, .readable) with
    | true => exact .inl rfl
    | false =>
      rw [hr] at armed
      exact .inr (by simpa using armed)
  rw [holds.lookup?, if_pos]
  rcases this with hc | hc
  · exact (holds.known fd _ hc).2
  · exact (holds.known fd _ hc).2

theorem cancelAll_refused (holds : t.Holds m) (armed : (m.armed fd).isEmpty = false)
    (told : poller.tell p fd (m.armed fd) .none = (p', .error cause)) :
    t.cancelAll poller p fd = (p', t, .refused cause) := by
  have armed' : (m.slot fd).armed.isEmpty = false := armed
  have told' : poller.deregister p fd = (p', .error cause) := told
  simp only [cancelAll, holds.lookup?_of_armed armed, armed', told', if_false, Bool.false_eq_true]

theorem cancelAll_done (holds : t.Holds m) (armed : (m.armed fd).isEmpty = false)
    (told : poller.tell p fd (m.armed fd) .none = (p', .ok ())) :
    ∃ t', t.cancelAll poller p fd =
        (p', t', .done (m.fire fd [.readable, .writable]).2) ∧
      t'.Holds (m.fire fd [.readable, .writable]).1 := by
  have armed' : (m.slot fd).armed.isEmpty = false := armed
  have told' : poller.deregister p fd = (p', .ok ()) := told
  obtain ⟨t', fired, holds'⟩ := holds.fireEach fd [.readable, .writable] (by decide)
  refine ⟨t', ?_, holds'⟩
  simp only [cancelAll, holds.lookup?_of_armed armed, armed', told', fired, if_false,
    Bool.false_eq_true]

theorem dispatch_ignored (holds : t.Holds m) {reported : Event}
    (ignored : (reported.inter (m.armed fd)).isEmpty = true) :
    t.dispatch poller p fd reported = (p, t, .ignored) := by
  have ignored' : (reported.inter (m.slot fd).armed).isEmpty = true := ignored
  unfold dispatch
  rw [holds.lookup?]
  split
  · rfl
  · next s hs =>
    split at hs
    · obtain rfl := Option.some.inj hs
      simp only [ignored', if_true]
    · cases hs

theorem dispatch_refused (holds : t.Holds m) {reported : Event}
    (fires : (reported.inter (m.armed fd)).isEmpty = false)
    (told : poller.tell p fd (m.armed fd) ((m.armed fd).without (reported.inter (m.armed fd))) =
      (p', .error cause)) :
    t.dispatch poller p fd reported =
      (p', t, .refused ((m.armed fd).without (reported.inter (m.armed fd))) cause) := by
  have fires' : (reported.inter (m.slot fd).armed).isEmpty = false := fires
  have armed := Event.isEmpty_of_inter fires
  rw [← rearm_eq _ _ _ _ armed] at told
  have told' : rearm poller p fd ((m.slot fd).armed.without (reported.inter (m.slot fd).armed)) =
    (p', .error cause) := told
  simp only [dispatch, holds.lookup?_of_armed armed, fires', told', if_false, Bool.false_eq_true]
  rfl

theorem dispatch_fired (holds : t.Holds m) {reported : Event}
    (fires : (reported.inter (m.armed fd)).isEmpty = false)
    (told : poller.tell p fd (m.armed fd) ((m.armed fd).without (reported.inter (m.armed fd))) =
      (p', .ok ())) :
    ∃ t', t.dispatch poller p fd reported =
        (p', t', .fired (m.fire fd (reported.inter (m.armed fd)).members).2) ∧
      t'.Holds (m.fire fd (reported.inter (m.armed fd)).members).1 := by
  have fires' : (reported.inter (m.slot fd).armed).isEmpty = false := fires
  have armed := Event.isEmpty_of_inter fires
  rw [← rearm_eq _ _ _ _ armed] at told
  have told' : rearm poller p fd ((m.slot fd).armed.without (reported.inter (m.slot fd).armed)) =
    (p', .ok ()) := told
  obtain ⟨t', fired, holds'⟩ := holds.fireEach fd (reported.inter (m.armed fd)).members
    fun _ => Event.isSingle_of_mem_members
  have fired' : t.fireEach fd
      ([Event.readable, Event.writable].filter fun e =>
        (reported.inter (m.slot fd).armed).contains e) = (t', .ok _) := fired
  refine ⟨t', ?_, holds'⟩
  simp only [dispatch, holds.lookup?_of_armed armed, fires', told', fired', if_false,
    Bool.false_eq_true]

end Fibers.Reactor.FdTable.Holds
