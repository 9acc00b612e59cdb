import Fibers.Proofs.Reactor.Masks
import Fibers.Reactor.Poller

/-!
A set of descriptors and the masks of those who wait. The set agrees with the masks if a number has
no registration where its mask is empty, and else exactly one: for the file that it names, with that
mask. Telling the set of a new mask keeps it so, and where it agrees, it never finds a number that
is to be entered already there, or one that is to be changed or removed missing.
-/

namespace Fibers.Kernel

/-- The change of a set of descriptors when the mask of a number changes. -/
def Epoll.tell (e : Epoll) (d : Descriptors) (fd : Int) (before after : Event) :
    Except OsError Epoll :=
  if after.isEmpty then e.deregister d fd
  else if before.isEmpty then e.register d fd after
  else e.modify d fd after

/-- The registrations of a number. -/
def Epoll.of (e : Epoll) (fd : Int) : List Registration :=
  e.registered.filter fun r => decide (r.fd = fd)

/-- The registrations are those of the numbers with a mask. -/
structure Epoll.Agrees (e : Epoll) (d : Descriptors) (mask : Int → Event) : Prop where
  unarmed : ∀ fd, (mask fd).isEmpty = true → e.of fd = []
  armed : ∀ fd, (mask fd).isEmpty = false →
    ∃ i f, d.file? fd = some (i, f) ∧ Descriptors.pollable f = true ∧ e.of fd = [⟨i, fd, mask fd⟩]

namespace Epoll

variable {e e' : Epoll} {d : Descriptors} {mask : Int → Event} {fd : Int} {after : Event}

theorem enqueue_registered (e : Epoll) (m : Member) : (e.enqueue m).registered = e.registered := by
  simp only [enqueue]
  split <;> rfl

theorem enqueueIfReady_registered (e : Epoll) (d : Descriptors) (f : OpenFile) (r : Registration) :
    (e.enqueueIfReady d f r).registered = e.registered := by
  simp only [enqueueIfReady]
  split
  · rfl
  · exact enqueue_registered ..

theorem of_congr (h : e'.registered = e.registered) (fd : Int) : e'.of fd = e.of fd := by
  rw [of, h]
  rfl

theorem Agrees.congr (h : e.Agrees d mask) (same : e'.registered = e.registered) :
    e'.Agrees d mask := by
  constructor
  · intro fd none
    rw [of_congr same, h.unarmed fd none]
  · intro fd some
    obtain ⟨i, f, named, pollable, one⟩ := h.armed fd some
    exact ⟨i, f, named, pollable, by rw [of_congr same, one]⟩

/-- The registration under a file and a number is one of the number's. -/
theorem find?_eq (e : Epoll) (file : Nat) (fd : Int) :
    e.find? file fd = (e.of fd).find? fun r => r.file == file := by
  simp only [find?, of]
  induction e.registered with
  | nil => rfl
  | cons r rs ih =>
    by_cases hf : r.fd = fd
    · by_cases hi : r.file = file <;> simp [hf, hi, ih]
    · simp [hf, ih]

/-- A file that can be waited for, under its number. -/
theorem target_ok {i : Nat} {f : OpenFile} (h : target d fd = .ok (i, f)) :
    d.file? fd = some (i, f) ∧ Descriptors.pollable f = true := by
  simp only [target] at h
  cases named : d.file? fd with
  | none => simp [named] at h
  | some x =>
    obtain ⟨j, g⟩ := x
    simp only [named] at h
    split at h
    · next pollable =>
      obtain ⟨rfl, rfl⟩ := Prod.mk.inj (Except.ok.inj h)
      exact ⟨rfl, pollable⟩
    · cases h

theorem target_error {c : OsError} (h : target d fd = .error c) :
    c = .badDescriptor ∨ c = .permission := by
  simp only [target] at h
  split at h
  · exact .inl (Except.error.inj h).symm
  · split at h
    · cases h
    · exact .inr (Except.error.inj h).symm

theorem Agrees.target_armed (h : e.Agrees d mask) (some : (mask fd).isEmpty = false) :
    ∃ i f, target d fd = .ok (i, f) ∧ e.of fd = [⟨i, fd, mask fd⟩] := by
  obtain ⟨i, f, named, pollable, one⟩ := h.armed fd some
  exact ⟨i, f, by simp [target, named, pollable], one⟩

/-- What agreement says of a registration. -/
theorem Agrees.registration (h : e.Agrees d mask) {r : Registration} (mem : r ∈ e.registered) :
    (mask r.fd).isEmpty = false ∧ r.mask = mask r.fd ∧ e.of r.fd = [r] ∧
      ∃ f, d.file? r.fd = some (r.file, f) := by
  have mem' : r ∈ e.of r.fd := List.mem_filter.mpr ⟨mem, by simp⟩
  cases some : (mask r.fd).isEmpty with
  | true => simp [h.unarmed r.fd some] at mem'
  | false =>
    obtain ⟨i, f, named, -, one⟩ := h.armed r.fd some
    have eq : r = ⟨i, r.fd, mask r.fd⟩ := by simpa [one] using mem'
    have file : r.file = i := congrArg Registration.file eq
    exact ⟨rfl, congrArg Registration.mask eq, by rw [one, ← eq], f, by rw [named, file]⟩

theorem Agrees.registered_iff (h : e.Agrees d mask) (fd : Int) :
    (∃ r ∈ e.registered, r.fd = fd) ↔ (mask fd).isEmpty = false := by
  constructor
  · rintro ⟨r, mem, rfl⟩
    exact (h.registration mem).1
  · intro some
    obtain ⟨i, f, -, -, one⟩ := h.armed fd some
    have mem : (⟨i, fd, mask fd⟩ : Registration) ∈ e.of fd := by simp [one]
    exact ⟨_, (List.mem_filter.mp mem).1, rfl⟩

/-- The masks after one of them changed. -/
def changed (mask : Int → Event) (fd : Int) (after : Event) : Int → Event :=
  fun j => if j = fd then after else mask j

/-- The registrations of one number change to one for its file. -/
theorem Agrees.put (h : e.Agrees d mask) (some : after.isEmpty = false) {i : Nat} {f : OpenFile}
    (named : target d fd = .ok (i, f)) (others : ∀ j, j ≠ fd → e'.of j = e.of j)
    (one : e'.of fd = [⟨i, fd, after⟩]) : e'.Agrees d (changed mask fd after) := by
  obtain ⟨file, pollable⟩ := target_ok named
  constructor
  · intro j empty
    by_cases hj : j = fd
    · simp [changed, hj, some] at empty
    · rw [others j hj]
      exact h.unarmed j (by simpa [changed, hj] using empty)
  · intro j some
    by_cases hj : j = fd
    · subst hj
      exact ⟨i, f, file, pollable, by simp [one, changed]⟩
    · rw [others j hj]
      simpa [changed, hj] using h.armed j (by simpa [changed, hj] using some)

/-- The registrations of one number go. -/
theorem Agrees.drop (h : e.Agrees d mask) (none : after.isEmpty = true)
    (others : ∀ j, j ≠ fd → e'.of j = e.of j) (gone : e'.of fd = []) :
    e'.Agrees d (changed mask fd after) := by
  constructor
  · intro j empty
    by_cases hj : j = fd
    · rw [hj, gone]
    · rw [others j hj]
      exact h.unarmed j (by simpa [changed, hj] using empty)
  · intro j some
    by_cases hj : j = fd
    · simp [changed, hj, none] at some
    · rw [others j hj]
      simpa [changed, hj] using h.armed j (by simpa [changed, hj] using some)

theorem register_agrees (h : e.Agrees d mask) (first : (mask fd).isEmpty = true)
    (some : after.isEmpty = false) (ok : e.register d fd after = .ok e') :
    e'.Agrees d (changed mask fd after) := by
  have nothing := h.unarmed fd first
  simp only [register] at ok
  cases named : target d fd with
  | error c => simp [named] at ok
  | ok x =>
    obtain ⟨i, f⟩ := x
    have absent : e.find? i fd = none := by simp [find?_eq, nothing]
    simp only [named, absent] at ok
    obtain rfl := Except.ok.inj ok
    have registered := enqueueIfReady_registered
      { e with registered := e.registered ++ [⟨i, fd, after⟩] } d f ⟨i, fd, after⟩
    have entered : ∀ j, ({ e with registered := e.registered ++ [⟨i, fd, after⟩] } : Epoll).of j =
        e.of j ++ if j = fd then [⟨i, fd, after⟩] else [] := by
      intro j
      by_cases hj : j = fd
      · simp [of, hj]
      · simp [of, hj, Ne.symm hj]
    refine h.put some named (fun j hj => ?_) ?_
    · simp [of_congr registered, entered, hj]
    · simp [of_congr registered, entered, nothing]

theorem modify_agrees (h : e.Agrees d mask) (already : (mask fd).isEmpty = false)
    (some : after.isEmpty = false) (ok : e.modify d fd after = .ok e') :
    e'.Agrees d (changed mask fd after) := by
  obtain ⟨i, f, named, one⟩ := h.target_armed already
  have found : e.find? i fd = Option.some ⟨i, fd, mask fd⟩ := by simp [find?_eq, one]
  simp only [modify, named, found] at ok
  obtain rfl := Except.ok.inj ok
  let change := fun x : Registration => if x.file == i && x.fd == fd then ⟨i, fd, after⟩ else x
  have registered := enqueueIfReady_registered
    { e with registered := e.registered.map change } d f ⟨i, fd, after⟩
  have same : ∀ x, (change x).fd = x.fd := by
    intro x
    by_cases hx : x.file = i ∧ x.fd = fd
    · simp [change, hx]
    · simp only [change, beq_iff_eq, Bool.and_eq_true, hx, if_false]
  have mapped : ∀ j, ({ e with registered := e.registered.map change } : Epoll).of j =
      (e.of j).map change := by
    intro j
    simp only [of, List.filter_map, Function.comp_def, same]
  refine h.put some named (fun j hj => ?_) ?_
  · have apart : ∀ r ∈ e.of j, change r = r := by
      intro r hr
      have number : r.fd = j := by simpa using (List.mem_filter.mp hr).2
      simp [change, number, hj]
    rw [of_congr registered, mapped, List.map_congr_left apart, List.map_id']
  · rw [of_congr registered, mapped, one]
    simp [change]

theorem deregister_agrees (h : e.Agrees d mask) (already : (mask fd).isEmpty = false)
    (none : after.isEmpty = true) (ok : e.deregister d fd = .ok e') :
    e'.Agrees d (changed mask fd after) := by
  obtain ⟨i, f, named, one⟩ := h.target_armed already
  have found : e.find? i fd = some ⟨i, fd, mask fd⟩ := by simp [find?_eq, one]
  simp only [deregister, named, found] at ok
  obtain rfl := Except.ok.inj ok
  let kept := fun x : Registration => !(x.file == i && x.fd == fd)
  have left : ∀ j, ({ e with
      registered := e.registered.filter kept
      ready := e.ready.filter (· != .entry i fd) } : Epoll).of j = (e.of j).filter kept := by
    intro j
    simp only [of, List.filter_filter, Bool.and_comm]
  refine h.drop none (fun j hj => ?_) ?_
  · rw [left, List.filter_eq_self]
    intro r hr
    have number : r.fd = j := by simpa using (List.mem_filter.mp hr).2
    simp [kept, number, hj]
  · rw [left, one]
    simp [kept]

/-- A set that takes on a new mask agrees with it. -/
theorem tell_agrees (h : e.Agrees d mask)
    (some : (mask fd).isEmpty = false ∨ after.isEmpty = false)
    (ok : e.tell d fd (mask fd) after = .ok e') : e'.Agrees d (changed mask fd after) := by
  simp only [tell] at ok
  split at ok
  · next none =>
    exact deregister_agrees h (some.resolve_right (by simp [none])) none ok
  · next left =>
    have left : after.isEmpty = false := by simpa using left
    split at ok
    · next first => exact register_agrees h first left ok
    · next already => exact modify_agrees h (by simpa using already) left ok

/-- A set that agrees with the masks is never told to enter a number again, nor to change or remove
one that is not there. -/
theorem tell_error (h : e.Agrees d mask)
    (some : (mask fd).isEmpty = false ∨ after.isEmpty = false) {c : OsError}
    (failed : e.tell d fd (mask fd) after = .error c) : c = .badDescriptor ∨ c = .permission := by
  have present (already : (mask fd).isEmpty = false) :
      ∃ i f, target d fd = .ok (i, f) ∧ e.find? i fd = Option.some ⟨i, fd, mask fd⟩ := by
    obtain ⟨i, f, named, one⟩ := h.target_armed already
    exact ⟨i, f, named, by simp [find?_eq, one]⟩
  simp only [tell] at failed
  split at failed
  · next none =>
    obtain ⟨i, f, named, found⟩ := present (some.resolve_right (by simp [none]))
    simp [deregister, named, found] at failed
  · split at failed
    · next first =>
      simp only [register] at failed
      cases named : target d fd with
      | error c' =>
        simp only [named] at failed
        obtain rfl := Except.error.inj failed
        exact target_error named
      | ok x =>
        have absent : e.find? x.1 fd = none := by simp [find?_eq, h.unarmed fd first]
        simp [named, absent] at failed
    · next already =>
      obtain ⟨i, f, named, found⟩ := present (by simpa using already)
      simp [modify, named, found] at failed

/-- What is armed of a number can be changed. -/
theorem tell_succeeds (h : e.Agrees d mask) (already : (mask fd).isEmpty = false) :
    ∃ e', e.tell d fd (mask fd) after = .ok e' := by
  obtain ⟨i, f, named, one⟩ := h.target_armed already
  have found : e.find? i fd = some ⟨i, fd, mask fd⟩ := by simp [find?_eq, one]
  simp only [tell]
  split
  · simp [deregister, named, found]
  · simp [already, modify, named, found]

end Epoll

namespace State

variable {k k' : State} {id : Nat} {fd : Int} {before after : Event} {c : OsError}

/-- What a reactor tells its poller. -/
theorem tell_eq (id : Nat) (k : State) (fd : Int) (before after : Event) :
    (Reactor.epollPoller id).tell k fd before after =
      k.control id fun e d => e.tell d fd before after := by
  simp only [Reactor.Poller.tell, Reactor.epollPoller, Epoll.tell]
  split
  · rfl
  · split <;> rfl

/-- A control call that goes through. -/
theorem tell_ok (told : (Reactor.epollPoller id).tell k fd before after = (k', .ok ())) :
    ∃ e e', k.epolls.get? id = some e ∧ e.tell k.descriptors fd before after = .ok e' ∧
      k' = { k with epolls := k.epolls.put id e' } := by
  rw [tell_eq, control, takeFault] at told
  cases fault : k.faults.get? .epollCtl with
  | some n => simp [fault] at told
  | none =>
    simp only [fault] at told
    cases found : k.epolls.get? id with
    | none => simp [found] at told
    | some e =>
      simp only [found] at told
      cases done : e.tell k.descriptors fd before after with
      | error x => simp [done] at told
      | ok e' =>
        simp only [done, Prod.mk.injEq, and_true] at told
        exact ⟨e, e', rfl, done, told.symm⟩

/-- A control call goes through if it can be made and no call is made to fail. -/
theorem tell_calm {e e' : Epoll} (calm : k.faults.get? .epollCtl = none)
    (found : k.epolls.get? id = some e) (ok : e.tell k.descriptors fd before after = .ok e') :
    (Reactor.epollPoller id).tell k fd before after =
      ({ k with epolls := k.epolls.put id e' }, .ok ()) := by
  simp only [tell_eq, control, takeFault, calm, found, ok]

/-- A control call that fails has no effect, but for the fault that it used up. -/
theorem tell_failed (told : (Reactor.epollPoller id).tell k fd before after = (k', .error c)) :
    k'.descriptors = k.descriptors ∧ k'.epolls = k.epolls ∧
      (∀ n, k'.faults.get? .epollCtl = some n → k.faults.get? .epollCtl = some n) ∧
      ((∃ n, k.faults.get? .epollCtl = some n ∧ c = .code n) ∨
        ∀ e, k.epolls.get? id = some e → e.tell k.descriptors fd before after = .error c) := by
  rw [tell_eq, control, takeFault] at told
  cases fault : k.faults.get? .epollCtl with
  | some n =>
    simp only [fault, Prod.mk.injEq, Except.error.injEq] at told
    obtain ⟨rfl, rfl⟩ := told
    refine ⟨rfl, rfl, fun m later => ?_, .inl ⟨n, rfl, rfl⟩⟩
    simp at later
  | none =>
    simp only [fault] at told
    cases found : k.epolls.get? id with
    | none =>
      simp only [found, Prod.mk.injEq, Except.error.injEq] at told
      obtain ⟨rfl, rfl⟩ := told
      exact ⟨rfl, rfl, fun m later => fault ▸ later, .inr fun e absent => by cases absent⟩
    | some e =>
      simp only [found] at told
      cases done : e.tell k.descriptors fd before after with
      | ok e' => simp [done] at told
      | error x =>
        simp only [done, Prod.mk.injEq, Except.error.injEq] at told
        obtain ⟨rfl, rfl⟩ := told
        refine ⟨rfl, rfl, fun m later => fault ▸ later, .inr fun e₁ found₁ => ?_⟩
        obtain rfl := Option.some.inj found₁
        exact done

end State

end Fibers.Kernel
