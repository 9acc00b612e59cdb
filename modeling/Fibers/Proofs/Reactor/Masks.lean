import Fibers.Proofs.Reactor.Registry

/-!
What the operations of a descriptor table ask the poller. Each operation asks at most once, and for
the number that it works on; what is armed of that number changes exactly when the poller agrees,
and to what the poller was told. Nothing here depends on handlers, sizes or pending counts.
-/

namespace Fibers.Reactor

variable {η π : Type}

/-- A poller that also notes its answers. -/
def Poller.noting (poller : Poller π) : Poller (π × List (Except OsError Unit)) where
  register p fd e :=
    let (k, a) := poller.register p.1 fd e
    ((k, p.2 ++ [a]), a)
  modify p fd e :=
    let (k, a) := poller.modify p.1 fd e
    ((k, p.2 ++ [a]), a)
  deregister p fd :=
    let (k, a) := poller.deregister p.1 fd
    ((k, p.2 ++ [a]), a)

theorem Poller.noting_tell (poller : Poller π) (p : π) (notes : List (Except OsError Unit))
    (fd : Int) (before after : Event) :
    poller.noting.tell (p, notes) fd before after =
      let (k, a) := poller.tell p fd before after
      ((k, notes ++ [a]), a) := by
  simp only [Poller.tell]
  split
  · rfl
  · split <;> rfl

namespace FdTable

/-- The operations of a table that ask the poller. -/
inductive Operation (η : Type) where
  | arm (fd : Int) (e : Event) (h : η)
  | delete (fd : Int) (e : Event)
  | cancel (fd : Int) (e : Event)
  | cancelAll (fd : Int)
  | dispatch (fd : Int) (reported : Event)

/-- What an operation leaves of the poller and the table. -/
def Operation.run (poller : Poller π) (p : π) (t : FdTable η) : Operation η → π × FdTable η
  | .arm fd e h => ((t.arm poller p fd e h).1, (t.arm poller p fd e h).2.1)
  | .delete fd e => ((t.delete poller p fd e).1, (t.delete poller p fd e).2.1)
  | .cancel fd e => ((t.cancel poller p fd e).1, (t.cancel poller p fd e).2.1)
  | .cancelAll fd => ((t.cancelAll poller p fd).1, (t.cancelAll poller p fd).2.1)
  | .dispatch fd reported =>
    ((t.dispatch poller p fd reported).1, (t.dispatch poller p fd reported).2.1)

/-- Only single events are armed. -/
def Operation.Single : Operation η → Prop
  | .arm _ e _ => e.isSingle = true
  | _ => True

/-- The answers that an operation gets from the poller. -/
def Operation.notes (poller : Poller π) (p : π) (t : FdTable η) (op : Operation η) :
    List (Except OsError Unit) :=
  (op.run poller.noting (p, []) t).1.2

/-- What is armed of a number. -/
def mask (t : FdTable η) (fd : Int) : Event := (t.slot fd).armed

/-- The poller is told what stays armed of a number, and the masks follow its answer. -/
inductive Asked (poller : Poller π) (p : π) (t : FdTable η) (fd : Int) (after : Event) :
    π → FdTable η → Prop where
  | refused {p' : π} {cause : OsError}
      (told : poller.tell p fd (t.mask fd) after = (p', .error cause)) :
      Asked poller p t fd after p' t
  | agreed {p' : π} {t' : FdTable η}
      (told : poller.tell p fd (t.mask fd) after = (p', .ok ()))
      (masks : ∀ j, t'.mask j = if j = fd then after else t.mask j) :
      Asked poller p t fd after p' t'

/-- How an operation moves the poller and the masks on: it asks nothing, or once. -/
inductive Moves (poller : Poller π) (p : π) (t : FdTable η) : π → FdTable η → Prop where
  | stays : Moves poller p t p t
  | asks {p' : π} {t' : FdTable η} (fd : Int) (after : Event)
      (some : (t.mask fd).isEmpty = false ∨ after.isEmpty = false)
      (asked : Asked poller p t fd after p' t') : Moves poller p t p' t'

variable {poller : Poller π} {p : π} {t : FdTable η} {fd : Int} {e : Event}

theorem mask_setSlot (t : FdTable η) (fd j : Int) (s : Slot η) :
    (t.setSlot fd s).mask j = if j = fd then s.armed else t.mask j := by
  simp only [mask, slot_setSlot]
  split <;> rfl

theorem setHandler_armed (s : Slot η) (e : Event) (h : Option η) :
    (s.setHandler e h).armed = s.armed := by
  simp only [Slot.setHandler]
  split <;> rfl

theorem slot_of_lookup? {s : Slot η} (h : t.lookup? fd = some s) : s = t.slot fd := by
  simp only [lookup?] at h
  split at h
  · exact (Option.some.inj h).symm
  · cases h

theorem isEmpty_of_contains {a b : Event} (h : a.contains b = true) : a.isEmpty = false := by
  obtain ⟨_ | _, _ | _⟩ := a <;> obtain ⟨_ | _, _ | _⟩ := b <;> first | rfl | cases h

theorem without_of_not_contains {a b : Event} (single : b.isSingle = true)
    (h : a.contains b = false) : a.without b = a := by
  obtain ⟨_ | _, _ | _⟩ := a <;> rcases Event.eq_of_isSingle single with rfl | rfl <;>
    first | rfl | cases h

/-- Taking out the members one by one takes out the set. -/
theorem foldl_without_members (a b : Event) : b.members.foldl Event.without a = a.without b := by
  obtain ⟨_ | _, _ | _⟩ := a <;> obtain ⟨_ | _, _ | _⟩ := b <;> rfl

theorem foldl_without_all (a : Event) :
    [Event.readable, .writable].foldl Event.without a = .none := by
  obtain ⟨_ | _, _ | _⟩ := a <;> rfl

theorem trigger_mask (armed : (t.mask fd).contains e = true) (j : Int) :
    (t.trigger fd e).1.mask j = if j = fd then (t.mask fd).without e else t.mask j := by
  have armed' : (t.slot fd).armed.contains e = true := armed
  simp only [trigger, armed', Bool.not_true, Bool.false_eq_true, if_false]
  split <;> simp only [mask_setSlot, setHandler_armed] <;> rfl

theorem trigger_single (armed : (t.mask fd).contains e = true) (single : e.isSingle = true) :
    ∃ h, (t.trigger fd e).2 = .ok h := by
  have armed' : (t.slot fd).armed.contains e = true := armed
  simp [trigger, armed', single]

theorem fireEach_mask (fd : Int) (es : List Event) (single : ∀ e ∈ es, e.isSingle = true)
    (t : FdTable η) (j : Int) :
    (t.fireEach fd es).1.mask j =
      if j = fd then es.foldl Event.without (t.mask fd) else t.mask j := by
  induction es generalizing t with
  | nil =>
    simp only [fireEach, List.foldl_nil]
    split
    · next h => rw [h]
    · rfl
  | cons e es ih =>
    have single' := fun x hx => single x (List.mem_cons_of_mem e hx)
    unfold fireEach
    cases armed : (t.slot fd).armed.contains e with
    | false =>
      have same : (t.mask fd).without e = t.mask fd :=
        without_of_not_contains (single e List.mem_cons_self) armed
      rw [if_neg Bool.false_ne_true, ih single', List.foldl_cons, same]
    | true =>
      have masks := trigger_mask (t := t) armed
      obtain ⟨h, fired⟩ := trigger_single (t := t) armed (single e List.mem_cons_self)
      rw [if_pos rfl]
      cases step : t.trigger fd e with
      | mk t' res =>
        rw [step] at masks fired
        simp only at masks fired
        have rest := ih single' t'.settle
        rw [show t'.settle.mask = t'.mask from rfl, masks, masks, if_pos rfl] at rest
        subst fired
        dsimp only
        cases last : t'.settle.fireEach fd es with
        | mk t'' res' =>
          rw [last] at rest
          cases res' <;> (dsimp only; rw [rest]; split <;> rfl)

/-- Events that are not all armed are not disarmed. -/
theorem absent_of_not_contains (less : (t.slot fd).armed.contains e = false) :
    t.delete poller p fd e = (p, t, .absent) ∧ t.cancel poller p fd e = (p, t, .absent) := by
  unfold delete cancel
  cases known : t.lookup? fd with
  | none => exact ⟨rfl, rfl⟩
  | some s =>
    obtain rfl := slot_of_lookup? known
    dsimp only
    rw [less]
    exact ⟨rfl, rfl⟩

/-- What stays armed of a number is told to the poller. -/
theorem rearm_tell (poller : Poller π) (p : π) (after : Event)
    (armed : (t.mask fd).isEmpty = false) :
    rearm poller p fd after = poller.tell p fd (t.mask fd) after := by
  simp [rearm, Poller.tell, armed]

/-- What was agreed to when arming becomes the mask, whether or not a handler was in the way. -/
theorem arm_masks (t : FdTable η) (fd : Int) (e interest : Event) (h : η) (j : Int) :
    let t' := { t with pending := t.pending + 1 }
    let s := { t.slot fd with armed := interest }
    (t'.setSlot fd s).mask j = (if j = fd then interest else t.mask j) ∧
      (t'.setSlot fd (s.setHandler e (some h))).mask j = if j = fd then interest else t.mask j := by
  simp only [mask_setSlot, setHandler_armed]
  exact ⟨rfl, rfl⟩

theorem arm_moves (single : e.isSingle = true) (h : η) :
    Moves poller p t (t.arm poller p fd e h).1 (t.arm poller p fd e h).2.1 := by
  have some : ((t.slot fd).armed.union e).isEmpty = false := by
    obtain ⟨_ | _, _ | _⟩ := (t.slot fd).armed <;>
      rcases Event.eq_of_isSingle single with rfl | rfl <;> rfl
  have told : poller.tell p fd (t.mask fd) ((t.slot fd).armed.union e) =
      if (t.slot fd).armed.isEmpty then poller.register p fd ((t.slot fd).armed.union e)
      else poller.modify p fd ((t.slot fd).armed.union e) := by
    simp only [Poller.tell, some, Bool.false_eq_true, if_false]
    rfl
  have masks := arm_masks t fd e ((t.slot fd).armed.union e) h
  cases armed : (t.slot fd).armed.contains e with
  | true =>
    simp only [arm, armed, if_true]
    exact .stays
  | false =>
    cases first : (t.slot fd).armed.isEmpty with
    | true =>
      rw [first, if_pos rfl] at told
      cases res : poller.register p fd ((t.slot fd).armed.union e) with
      | mk p' a =>
        rw [res] at told
        simp only [arm, armed, first, Bool.false_eq_true, if_false, if_true, res]
        cases a with
        | error cause => exact .asks fd _ (.inr some) (.refused told)
        | ok _ =>
          dsimp only
          split
          · exact .asks fd _ (.inr some) (.agreed told fun j => (masks j).1)
          · exact .asks fd _ (.inr some) (.agreed told fun j => (masks j).2)
    | false =>
      rw [first, if_neg Bool.false_ne_true] at told
      cases res : poller.modify p fd ((t.slot fd).armed.union e) with
      | mk p' a =>
        rw [res] at told
        simp only [arm, armed, first, Bool.false_eq_true, if_false, res]
        cases a with
        | error cause => exact .asks fd _ (.inr some) (.refused told)
        | ok _ =>
          dsimp only
          split
          · exact .asks fd _ (.inr some) (.agreed told fun j => (masks j).1)
          · exact .asks fd _ (.inr some) (.agreed told fun j => (masks j).2)

theorem delete_moves (fd : Int) (e : Event) :
    Moves poller p t (t.delete poller p fd e).1 (t.delete poller p fd e).2.1 := by
  unfold delete
  cases found : t.lookup? fd with
  | none => exact .stays
  | some s =>
    obtain rfl := slot_of_lookup? found
    cases armed : (t.slot fd).armed.contains e with
    | false => simp only [armed, Bool.not_false, if_true]; exact .stays
    | true =>
      have some : (t.mask fd).isEmpty = false := isEmpty_of_contains armed
      have told := rearm_tell poller p ((t.slot fd).armed.without e) some
      simp only [armed, Bool.not_true, Bool.false_eq_true, if_false]
      cases res : rearm poller p fd ((t.slot fd).armed.without e) with
      | mk p' a =>
        rw [res] at told
        cases a with
        | error cause => exact .asks fd _ (.inl some) (.refused told.symm)
        | ok _ =>
          dsimp only
          split <;>
          · refine .asks fd _ (.inl some) (.agreed told.symm fun j => ?_)
            simp only [mask_setSlot, setHandler_armed]
            rfl

theorem cancel_moves (fd : Int) (e : Event) :
    Moves poller p t (t.cancel poller p fd e).1 (t.cancel poller p fd e).2.1 := by
  unfold cancel
  cases found : t.lookup? fd with
  | none => exact .stays
  | some s =>
    obtain rfl := slot_of_lookup? found
    cases armed : (t.slot fd).armed.contains e with
    | false => simp only [armed, Bool.not_false, if_true]; exact .stays
    | true =>
      have some : (t.mask fd).isEmpty = false := isEmpty_of_contains armed
      have told := rearm_tell poller p ((t.slot fd).armed.without e) some
      have masks := trigger_mask (t := t) armed
      simp only [armed, Bool.not_true, Bool.false_eq_true, if_false]
      cases res : rearm poller p fd ((t.slot fd).armed.without e) with
      | mk p' a =>
        rw [res] at told
        cases a with
        | error cause => exact .asks fd _ (.inl some) (.refused told.symm)
        | ok _ =>
          dsimp only
          cases step : t.trigger fd e with
          | mk t' fired =>
            rw [step] at masks
            cases fired <;> exact .asks fd _ (.inl some) (.agreed told.symm masks)

theorem cancelAll_moves (fd : Int) :
    Moves poller p t (t.cancelAll poller p fd).1 (t.cancelAll poller p fd).2.1 := by
  unfold cancelAll
  cases found : t.lookup? fd with
  | none => exact .stays
  | some s =>
    obtain rfl := slot_of_lookup? found
    cases some : (t.slot fd).armed.isEmpty with
    | true => simp only [some, if_true]; exact .stays
    | false =>
      have told : poller.tell p fd (t.mask fd) .none = poller.deregister p fd := rfl
      have masks := fireEach_mask fd [.readable, .writable] (by simp [Event.isSingle,
        Event.readable, Event.writable]) t
      simp only [some, Bool.false_eq_true, if_false]
      cases res : poller.deregister p fd with
      | mk p' a =>
        rw [res] at told
        cases a with
        | error cause => exact .asks fd _ (.inl some) (.refused told)
        | ok _ =>
          dsimp only
          rw [foldl_without_all] at masks
          cases step : t.fireEach fd [.readable, .writable] with
          | mk t' fired =>
            rw [step] at masks
            cases fired <;> exact .asks fd _ (.inl some) (.agreed told masks)

/-- A report of something armed makes the table tell the poller what is left. -/
theorem dispatch_asked {s : Slot η} (found : t.lookup? fd = some s) {reported : Event}
    (fires : (reported.inter (t.mask fd)).isEmpty = false) :
    Asked poller p t fd ((t.mask fd).without (reported.inter (t.mask fd)))
      (t.dispatch poller p fd reported).1 (t.dispatch poller p fd reported).2.1 := by
  obtain rfl := slot_of_lookup? found
  have fires' : (reported.inter (t.slot fd).armed).isEmpty = false := fires
  have told := rearm_tell poller p
    ((t.slot fd).armed.without (reported.inter (t.slot fd).armed)) (Event.isEmpty_of_inter fires)
  have masks := fireEach_mask fd (reported.inter (t.slot fd).armed).members
    (fun _ => Event.isSingle_of_mem_members) t
  rw [foldl_without_members] at masks
  simp only [dispatch, found, fires', Bool.false_eq_true, if_false]
  cases res : rearm poller p fd
      ((t.slot fd).armed.without (reported.inter (t.slot fd).armed)) with
  | mk p' a =>
    rw [res] at told
    cases a with
    | error cause => exact .refused told.symm
    | ok _ =>
      dsimp only
      cases step : t.fireEach fd
          ([Event.readable, Event.writable].filter fun e =>
            (reported.inter (t.slot fd).armed).contains e) with
      | mk t' fired =>
        rw [show (reported.inter (t.slot fd).armed).members = [Event.readable,
          Event.writable].filter _ from rfl, step] at masks
        cases fired <;> exact .agreed told.symm masks

theorem dispatch_moves (fd : Int) (reported : Event) :
    Moves poller p t (t.dispatch poller p fd reported).1 (t.dispatch poller p fd reported).2.1 := by
  cases found : t.lookup? fd with
  | none =>
    simp only [dispatch, found]
    exact .stays
  | some s =>
    cases fires : (reported.inter (t.mask fd)).isEmpty with
    | true =>
      obtain rfl := slot_of_lookup? found
      have none : (reported.inter (t.slot fd).armed).isEmpty = true := fires
      simp only [dispatch, found, none, if_true]
      exact .stays
    | false => exact .asks fd _ (.inl (Event.isEmpty_of_inter fires)) (dispatch_asked found fires)

/-- Every operation asks at most once, and follows the answer. -/
theorem run_moves (poller : Poller π) (p : π) (t : FdTable η) {op : Operation η}
    (single : op.Single) : Moves poller p t (op.run poller p t).1 (op.run poller p t).2 := by
  cases op with
  | arm fd e h => exact arm_moves single h
  | delete fd e => exact delete_moves fd e
  | cancel fd e => exact cancel_moves fd e
  | cancelAll fd => exact cancelAll_moves fd
  | dispatch fd reported => exact dispatch_moves fd reported

end FdTable

end Fibers.Reactor
