import Fibers.Script.Machine

/-!
How effects run. `Act.on` is what an effect does in a world; its laws take a composed effect apart,
one step at a time, so that nothing else has to look into the monad. What only writes to the log is
told apart by `Quiet`: it leaves everything as it was but the settings of the log, the lines that it
wrote, and the error output.
-/

namespace Fibers.Script

variable {α β : Type}

/-- What an effect does in a world: how it ends, and the world that it leaves. -/
def Act.on (act : Act α) (w : World) : Except Stop α × World := act.run.run w

namespace Act

@[simp] theorem on_pure (a : α) (w : World) : (pure a : Act α).on w = (.ok a, w) := rfl

@[simp] theorem on_get (w : World) : (get : Act World).on w = (.ok w, w) := rfl

@[simp] theorem on_modify (f : World → World) (w : World) :
    (modify f : Act Unit).on w = (.ok (), f w) := rfl

@[simp] theorem on_throw (e : Stop) (w : World) : (throw e : Act α).on w = (.error e, w) := rfl

@[simp] theorem on_raise (p : Panic) (w : World) :
    (raise p : Act α).on w = (.error (.panic p), w) := rfl

@[simp] theorem on_fail (f : Failure) (w : World) :
    (fail f : Act α).on w = (.error (.failure f), w) := rfl

/-- An effect after another one: it runs where the first one ended, unless that one stopped. -/
theorem on_bind (x : Act α) (f : α → Act β) (w : World) :
    (x >>= f).on w =
      match x.on w with
      | (.ok a, w') => (f a).on w'
      | (.error e, w') => (.error e, w') := by
  change (ExceptT.bindCont f (x w).1 : StateM World _) (x w).2 =
    match x w with
    | (.ok a, w') => f a w'
    | (.error e, w') => (.error e, w')
  rcases x w with ⟨_ | _, _⟩ <;> rfl

theorem on_bind_ok {x : Act α} {f : α → Act β} {w w' : World} {a : α} (h : x.on w = (.ok a, w')) :
    (x >>= f).on w = (f a).on w' := by
  rw [on_bind, h]

/-- Both parts of an effect that goes well go well. -/
theorem of_bind_ok {x : Act α} {f : α → Act β} {w w' : World} {b : β}
    (h : (x >>= f).on w = (.ok b, w')) :
    ∃ a v, x.on w = (.ok a, v) ∧ (f a).on v = (.ok b, w') := by
  rw [on_bind] at h
  rcases first : x.on w with ⟨_ | a, v⟩
  all_goals rw [first] at h
  · cases h
  · exact ⟨a, v, rfl, h⟩

theorem on_bind_error {x : Act α} {f : α → Act β} {w w' : World} {e : Stop}
    (h : x.on w = (.error e, w')) : (x >>= f).on w = (.error e, w') := by
  rw [on_bind, h]

theorem on_map (x : Act α) (f : α → β) (w : World) :
    (f <$> x).on w =
      match x.on w with
      | (.ok a, w') => (.ok (f a), w')
      | (.error e, w') => (.error e, w') := by
  have bound : (f <$> x) = x >>= fun a => pure (f a) := map_eq_pure_bind f x
  rw [bound, on_bind]
  rcases x.on w with ⟨_ | _, _⟩ <;> rfl

/-- An effect that is not always done, before one that is. -/
theorem on_when {c : Prop} [Decidable c] {x : Act Unit} {f : Unit → Act β} {w v : World}
    (h : (if c then x else pure ()).on w = (.ok (), v)) :
    (if c then x >>= f else f ()).on w = (f ()).on v := by
  split
  · next hc =>
    rw [if_pos hc] at h
    exact on_bind_ok h
  · next hc =>
    rw [if_neg hc] at h
    obtain ⟨-, rfl⟩ := Prod.mk.inj h
    rfl

@[simp] theorem on_bind_pure (a : α) (f : α → Act β) (w : World) :
    ((pure a : Act α) >>= f).on w = (f a).on w := on_bind_ok rfl

@[simp] theorem on_bind_get (f : World → Act β) (w : World) :
    ((get : Act World) >>= f).on w = (f w).on w := on_bind_ok rfl

@[simp] theorem on_bind_modify (g : World → World) (f : Unit → Act β) (w : World) :
    ((modify g : Act Unit) >>= f).on w = (f ()).on (g w) := on_bind_ok rfl

end Act

theorem kernel_on (f : Kernel.State → Kernel.State × α) (w : World) :
    (kernel f).on w = (.ok (f w.kernel).2, { w with kernel := (f w.kernel).1 }) := rfl

theorem perform_congr {act act' : Act Signal} {w v : World} (same : act.on w = act'.on v) :
    w.perform act = v.perform act' := by
  rw [World.perform, World.perform, show act.run.run w = act'.run.run v from same]

theorem perform_of_ok {act : Act Signal} {w w' : World} {s : Signal}
    (h : act.on w = (.ok s, w')) : w.perform act = (s, w') := by
  rw [World.perform, show act.run.run w = _ from h]

theorem perform_of_panic {act : Act Signal} {w w' : World} {p : Panic}
    (h : act.on w = (.error (.panic p), w')) : w.perform act = (.raised p, w') := by
  rw [World.perform, show act.run.run w = _ from h]

theorem perform_of_failure {act : Act Signal} {w w' : World} {f : Failure}
    (h : act.on w = (.error (.failure f), w')) : w.perform act = (.failed f, w') := by
  rw [World.perform, show act.run.run w = _ from h]

/-- Whether an action was reported, rather than a line logged. -/
def Entry.isAction (e : Entry) : Bool :=
  match e.event with
  | .action .. => true
  | .logged .. => false

/-- The actions that were reported, last one first. -/
def World.actions (w : World) : List Entry := w.trace.filter Entry.isAction

/-- Nothing but the log tells two worlds apart. -/
def Quiet (w w' : World) : Prop :=
  ∃ settings trace stderr,
    w' = { w with settings := settings, trace := trace, stderr := stderr } ∧
      w'.actions = w.actions

namespace Quiet

theorem refl (w : World) : Quiet w w := ⟨w.settings, w.trace, w.stderr, rfl, rfl⟩

theorem trans {u v w : World} (h : Quiet u v) (g : Quiet v w) : Quiet u w := by
  obtain ⟨_, _, _, rfl, hu⟩ := h
  obtain ⟨_, _, _, rfl, hv⟩ := g
  exact ⟨_, _, _, rfl, hv.trans hu⟩

theorem fibers {w w' : World} (h : Quiet w w') : w'.fibers = w.fibers := by
  obtain ⟨_, _, _, rfl, _⟩ := h
  rfl

theorem schedulers {w w' : World} (h : Quiet w w') : w'.schedulers = w.schedulers := by
  obtain ⟨_, _, _, rfl, _⟩ := h
  rfl

theorem reactors {w w' : World} (h : Quiet w w') : w'.reactors = w.reactors := by
  obtain ⟨_, _, _, rfl, _⟩ := h
  rfl

theorem kernel {w w' : World} (h : Quiet w w') : w'.kernel = w.kernel := by
  obtain ⟨_, _, _, rfl, _⟩ := h
  rfl

end Quiet

theorem initLog_quiet (w : World) : ∃ w', initLog.on w = (.ok (), w') ∧ Quiet w w' :=
  ⟨_, rfl, _, _, _, rfl, rfl⟩

theorem writeError_quiet (text : String) (w : World) :
    ∃ w', (writeError text).on w = (.ok (), w') ∧ Quiet w w' :=
  ⟨_, rfl, _, _, _, rfl, rfl⟩

theorem happen_logged_quiet (kind level text : String) (w : World) :
    ∃ w', (happen (.logged kind level text)).on w = (.ok (), w') ∧ Quiet w w' :=
  ⟨_, rfl, _, _, _, rfl, by simp [World.actions, Entry.isAction]⟩

theorem sendLine_quiet (l : Log.Level) (text : String) (w : World) :
    ∃ w', (sendLine l text).on w = (.ok (), w') ∧ Quiet w w' := by
  rw [sendLine, Act.on_bind_get]
  split
  · exact writeError_quiet _ w
  · exact writeError_quiet _ w
  · exact happen_logged_quiet _ _ _ w

/-- To log a line is to do nothing but that. -/
theorem log_quiet (l : Log.Level) (text : String) (w : World) :
    ∃ w', (log l text).on w = (.ok (), w') ∧ Quiet w w' := by
  obtain ⟨v, hv, quiet⟩ := initLog_quiet w
  rw [log, Act.on_bind_ok hv, Act.on_bind_get]
  split
  · obtain ⟨w', hw, quiet'⟩ := sendLine_quiet l _ v
    exact ⟨w', hw, quiet.trans quiet'⟩
  · exact ⟨v, rfl, quiet⟩

/-- A violation is announced and raised; it changes nothing else. -/
theorem violate_quiet (v : Violation) (w : World) :
    ∃ w', (violate v : Act α).on w = (.error (.panic (.violation v)), w') ∧ Quiet w w' := by
  obtain ⟨w', hw, quiet⟩ := log_quiet .error (announcement v) w
  exact ⟨w', by rw [violate, logError, Act.on_bind_ok hw, Act.on_raise], quiet⟩

@[simp] theorem releaseUpTo_nil (n : Nat) : releaseUpTo n [] = pure () := by cases n <;> rfl

@[simp] theorem release_nil (w : World) : (release []).on w = (.ok (), w) := by
  rw [release, Act.on_bind_get, releaseUpTo_nil, Act.on_pure]

end Fibers.Script
