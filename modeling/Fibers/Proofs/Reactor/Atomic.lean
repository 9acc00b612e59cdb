import Fibers.Proofs.Kernel.Interest
import Fibers.Proofs.Reactor.Masks
import Fibers.Proofs.Reactor.Refinement
import Fibers.Proofs.Scheduler.View

/-!
Calls to a reactor that fail. A call that arms or disarms asks the poller before it changes the
table, so that one which fails leaves handlers, masks, counts and registrations as they were, with
one exception: to disarm both events of a number in one call is refused only after the poller has
agreed. `Works` are the worlds that calls reach as long as that has not happened.
-/

namespace Fibers

open Reactor (Registry)

namespace Event

/-- A set of events is single, empty, or has both. -/
theorem cases_of_single (e : Event) : e.isSingle = true ∨ e = .none ∨ e = .both := by
  obtain ⟨_ | _, _ | _⟩ := e
  · exact .inr (.inl rfl)
  · exact .inl rfl
  · exact .inl rfl
  · exact .inr (.inr rfl)

theorem contains_both {a : Event} : a.contains .both = true ↔ a = .both := by
  obtain ⟨_ | _, _ | _⟩ := a <;> decide

end Event

namespace Reactor.FdTable

variable {η π : Type}

/-- How disarming events of a number ends, for a table that holds the handlers of a registry. `late`
says that both events were armed and the poller agreed to take the number out; `torn` is the table
then. -/
inductive Ends (poller : Poller π) (p : π) (t : FdTable η) (fd : Int) (torn : FdTable η)
    (late : Prop) : π × FdTable η × Disarmed η → Prop where
  | absent (apart : ¬late) : Ends poller p t fd torn late (p, t, .absent)
  | refused (before after : Event) {p' : π} {cause : OsError} (apart : ¬late)
      (told : poller.tell p fd before after = (p', .error cause)) :
      Ends poller p t fd torn late (p', t, .refused cause)
  | done {p' : π} {t' : FdTable η} {hs : List η} {m : Registry η} (apart : ¬late)
      (holds : t'.Holds m) : Ends poller p t fd torn late (p', t', .done hs)
  | violated {p' : π} (is : late) (told : poller.deregister p fd = (p', .ok ())) :
      Ends poller p t fd torn late (p', torn, .violated (.noEventContext .both))

/-- Both events of a number are disarmed, and their handlers stay. -/
def torn (t : FdTable η) (fd : Int) (pending : Nat) : FdTable η :=
  { t with pending := pending }.setSlot fd { t.slot fd with armed := .none }

/-- Both events of a number are armed, and the poller agrees to take it out. -/
def Late (poller : Poller π) (p : π) (t : FdTable η) (fd : Int) (e : Event) : Prop :=
  e = .both ∧ (t.slot fd).armed = .both ∧ (poller.deregister p fd).2 = .ok ()

/-- Making room adds blank slots and nothing else. -/
theorem reserve_grows {t t' : FdTable η} {fd : Int} {grown : Option Nat}
    (ok : t.reserve fd = .ok (t', grown)) : ∃ n, t.size ≤ n ∧ t' = { t with size := n } := by
  unfold reserve at ok
  split at ok
  · cases ok
  · split at ok
    · obtain ⟨rfl, -⟩ := Prod.mk.inj (Except.ok.inj ok)
      exact ⟨t.size, Nat.le_refl _, rfl⟩
    · dsimp only at ok
      split at ok
      · obtain ⟨rfl, -⟩ := Prod.mk.inj (Except.ok.inj ok)
        exact ⟨_, by omega, rfl⟩
      · cases ok

section Both

variable {t : FdTable η} {fd : Int} {e : Event} {poller : Poller π} {p p' : π} {cause : OsError}

theorem both_refused (known : t.lookup? fd = some (t.slot fd)) (armed : (t.slot fd).armed = .both)
    (told : poller.deregister p fd = (p', .error cause)) :
    t.delete poller p fd .both = (p', t, .refused cause) ∧
      t.cancel poller p fd .both = (p', t, .refused cause) := by
  have told' : rearm poller p fd ((t.slot fd).armed.without .both) = (p', .error cause) := by
    rw [armed]
    exact told
  have all : (t.slot fd).armed.contains .both = true := Event.contains_both.mpr armed
  simp only [delete, cancel, known, all, told', Bool.not_true, Bool.false_eq_true, if_false]
  exact ⟨trivial, trivial⟩

theorem both_violated (known : t.lookup? fd = some (t.slot fd))
    (armed : (t.slot fd).armed = .both) (told : poller.deregister p fd = (p', .ok ())) :
    t.delete poller p fd .both =
        (p', t.torn fd (t.pending - 1), .violated (.noEventContext .both)) ∧
      t.cancel poller p fd .both =
        (p', t.torn fd t.pending, .violated (.noEventContext .both)) := by
  have told' : rearm poller p fd .none = (p', .ok ()) := told
  have all : (t.slot fd).armed.contains .both = true := Event.contains_both.mpr armed
  have none : (t.slot fd).armed.without .both = .none := by rw [armed]; rfl
  have several : Event.both.isSingle = false := rfl
  simp only [delete, cancel, trigger, known, all, told', none, several, Bool.not_true,
    Bool.false_eq_true, if_false]
  exact ⟨rfl, rfl⟩

end Both

namespace Holds

variable {t : FdTable η} {m : Registry η} {fd : Int} {e : Event} {poller : Poller π} {p : π}

/-- The handlers of a number that has both events armed have a slot. -/
theorem lookup?_of_both (holds : t.Holds m) (armed : (t.slot fd).armed = .both) :
    t.lookup? fd = some (t.slot fd) := by
  have some : (m.armed fd).isEmpty = false := by
    have same : (t.slot fd).armed = m.armed fd := by
      rw [holds.slot]
      rfl
    rw [← same, armed]
    rfl
  rw [holds.lookup?_of_armed some, holds.slot]

/-- A table that grew holds the same handlers. -/
theorem grow (holds : t.Holds m) {n : Nat} (grown : t.size ≤ n) : { t with size := n }.Holds m where
  slot := holds.slot
  known fd e he := by
    obtain ⟨single, pos, inside⟩ := holds.known fd e he
    exact ⟨single, pos, Int.lt_of_lt_of_le inside (Int.ofNat_le.mpr grown)⟩
  pending := holds.pending
  distinct := holds.distinct

theorem delete_single_ends (holds : t.Holds m) (single : e.isSingle = true) (s : FdTable η)
    {late : Prop} (apart : ¬late) : Ends poller p t fd s late (t.delete poller p fd e) := by
  cases entry : m.get? (fd, e) with
  | none =>
    rw [holds.delete_absent single entry]
    exact .absent apart
  | some h =>
    rcases told : poller.tell p fd (m.armed fd) ((m.armed fd).without e) with ⟨p', cause | ⟨⟩⟩
    · rw [holds.delete_refused single entry told]
      exact .refused _ _ apart told
    · obtain ⟨t', done, holds'⟩ := holds.delete_done single entry told
      rw [done]
      exact .done apart holds'

/-- How disarming ends for any set of events. -/
theorem disarm_ends (holds : t.Holds m) (poller : Poller π) (p : π) (fd : Int) (e : Event) :
    Ends poller p t fd (t.torn fd (t.pending - 1)) (Late poller p t fd e) (t.delete poller p fd e) ∧
      Ends poller p t fd (t.torn fd t.pending) (Late poller p t fd e) (t.cancel poller p fd e) := by
  by_cases all : (t.slot fd).armed.contains e = true
  · rcases e.cases_of_single with single | rfl | rfl
    · have apart : ¬Late poller p t fd e := by
        rintro ⟨rfl, _⟩
        cases single
      rw [holds.cancel_eq_delete single]
      exact ⟨holds.delete_single_ends single _ apart, holds.delete_single_ends single _ apart⟩
    · cases all
    · have armed := Event.contains_both.mp all
      have known := holds.lookup?_of_both armed
      rcases told : poller.deregister p fd with ⟨p', cause | ⟨⟩⟩
      · have apart : ¬Late poller p t fd .both := by
          rintro ⟨_, _, agreed⟩
          rw [told] at agreed
          cases agreed
        obtain ⟨deleted, cancelled⟩ := both_refused known armed told
        rw [deleted, cancelled]
        exact ⟨.refused .both .none apart told, .refused .both .none apart told⟩
      · have late : Late poller p t fd .both := ⟨rfl, armed, by rw [told]⟩
        obtain ⟨deleted, cancelled⟩ := both_violated known armed told
        rw [deleted, cancelled]
        exact ⟨.violated late told, .violated late told⟩
  · have less : (t.slot fd).armed.contains e = false := Bool.not_eq_true _ ▸ all
    have apart : ¬Late poller p t fd e := by
      rintro ⟨rfl, armed, _⟩
      exact all (Event.contains_both.mpr armed)
    obtain ⟨deleted, cancelled⟩ := absent_of_not_contains less
    rw [deleted, cancelled]
    exact ⟨.absent apart, .absent apart⟩

/-- To disarm all of a number never comes too late. -/
theorem cancelAll_ends (holds : t.Holds m) (poller : Poller π) (p : π) (fd : Int)
    (s : FdTable η) : Ends poller p t fd s False (t.cancelAll poller p fd) := by
  cases armed : (m.armed fd).isEmpty with
  | true =>
    rw [holds.cancelAll_absent armed]
    exact .absent id
  | false =>
    rcases told : poller.tell p fd (m.armed fd) .none with ⟨p', cause | ⟨⟩⟩
    · rw [holds.cancelAll_refused armed told]
      exact .refused _ _ id told
    · obtain ⟨t', done, holds'⟩ := holds.cancelAll_done armed told
      rw [done]
      exact .done id holds'

end Holds

end Reactor.FdTable

namespace Script

variable {io : Manager} {start w w' : World} {m : Registry Handler} {x : ReactorRecord}

/-- A call of a program to a reactor. -/
inductive EventCall where
  /-- Without a task, the running fiber is queued. -/
  | add (fd : Int) (event : Event) (given : Option (Task Body))
  | delete (fd : Int) (event : Event)
  | cancel (fd : Int) (event : Event)
  | cancelAll (fd : Int)

namespace EventCall

/-- What a call does. -/
def act (io : Manager) : EventCall → Act Signal
  | add fd event given => addEvent io.scheduler io.reactor fd event given
  | delete fd event => performReactor "" (.delete io.name fd event)
  | cancel fd event => performReactor "" (.cancel io.name fd event)
  | cancelAll fd => performReactor "" (.cancelAll io.name fd)

/-- The handles that come with the handler of a call. -/
def held (w : World) : EventCall → List Handle
  | add _ _ (some task) => taskHandles task
  | add _ _ none => (w.thread.current.map Handle.fiber).toList
  | _ => []

/-- The call disarms both events of a number, and the poller agrees. -/
def TakesBoth (io : Manager) (w : World) : EventCall → Prop
  | delete fd e | cancel fd e =>
    ∃ x, w.reactors.get? io.reactor = some x ∧
      x.table.Late (Reactor.epollPoller x.epoll) w.kernel fd e
  | _ => False

def fd : EventCall → Int
  | add fd _ _ | delete fd _ | cancel fd _ | cancelAll fd => fd

/-- What a table is left as by a call that disarms both events of a number. -/
def torn (t : Reactor.FdTable Handler) : EventCall → Reactor.FdTable Handler
  | delete fd _ => t.torn fd (t.pending - 1)
  | cancel fd _ => t.torn fd t.pending
  | _ => t

end EventCall

/-- The call did not succeed: it failed, broke off or answered no. -/
def Signal.isFailure : Signal → Bool
  | .failed _ | .raised _ => true
  | .done (.flag b) => !b
  | _ => false

/-- All handlers, masks and counts, what is registered with the pollers and all queues are the same;
the table may have grown by blank slots. -/
structure Conserved (io : Manager) (w w' : World) : Prop where
  table : ∀ x, w.reactors.get? io.reactor = some x → ∃ n, x.table.size ≤ n ∧
    w'.reactors.get? io.reactor = some { x with table := { x.table with size := n } }
  others : ∀ r, r ≠ io.reactor → w'.reactors.get? r = w.reactors.get? r
  registrations : w'.kernel.epolls = w.kernel.epolls
  schedulers : w'.schedulers = w.schedulers
  names : w'.names = w.names

/-- A call that changed nothing, but that it let go of the handler that it was given. -/
def Atomic (io : Manager) (w : World) (q : EventCall) (w' : World) : Prop :=
  ∃ v dropped, Conserved io w v ∧ (dropped = [] ∨ dropped = q.held w) ∧
    (release dropped).on v = (.ok (), w') ∧ Appends v w' .none

/-- A call that was refused after the poller had taken the number out: nothing of it is armed any
more, but the handlers are there, and the poller does not know the number. -/
structure Tears (io : Manager) (w : World) (q : EventCall) (w' : World) : Prop where
  table : ∀ x, w.reactors.get? io.reactor = some x →
    w'.reactors.get? io.reactor = some { x with table := q.torn x.table }
  registrations : ∀ x, w.reactors.get? io.reactor = some x → ∃ e e',
    w.kernel.epolls.get? x.epoll = some e ∧ e.deregister w.kernel.descriptors q.fd = .ok e' ∧
      w'.kernel.epolls = w.kernel.epolls.put x.epoll e'
  schedulers : w'.schedulers = w.schedulers

/-- How a call ends on a reactor whose table holds the handlers of a registry. -/
inductive Concludes (io : Manager) (w : World) (q : EventCall) : Signal × World → Prop where
  | succeeds {d : Datum} {w' : World} {m : Registry Handler}
      (good : (Signal.done d).isFailure = false) (manages : Manages io w')
      (holds : ∀ x, w'.reactors.get? io.reactor = some x → x.table.Holds m) :
      Concludes io w q (.done d, w')
  | fails {s : Signal} {w' : World} (apart : ¬q.TakesBoth io w) (atomic : Atomic io w q w') :
      Concludes io w q (s, w')
  | tears {w' : World} (both : q.TakesBoth io w) (torn : Tears io w q w') :
      Concludes io w q (.raised (.violation (.noEventContext .both)), w')

theorem Conserved.refl (w : World) : Conserved io w w :=
  ⟨fun x found => ⟨x.table.size, Nat.le_refl _, found⟩, fun _ _ => rfl, rfl, rfl, rfl⟩

theorem Conserved.of_withTable (found : w.reactors.get? io.reactor = some x) {k : Kernel.State}
    (epolls : k.epolls = w.kernel.epolls) {n : Nat} (grown : x.table.size ≤ n) :
    Conserved io w (w.withTable io.reactor k { x.table with size := n }) where
  table y hy := by
    obtain rfl := Option.some.inj (found.symm.trans hy)
    exact ⟨n, grown, withTable_get? found _ _⟩
  others r hr := by
    change (w.reactors.modify io.reactor _).get? r = _
    rw [Table.get?_modify, if_neg hr]
  registrations := epolls
  schedulers := rfl
  names := rfl

theorem Conserved.quiet {v : World} (h : Conserved io w v) (quiet : Quiet v w') :
    Conserved io w w' := by
  obtain ⟨_, _, _, rfl, _⟩ := quiet
  exact ⟨h.table, h.others, h.registrations, h.schedulers, h.names⟩

theorem Conserved.trans {v : World} (h : Conserved io w v) (g : Conserved io v w') :
    Conserved io w w' where
  table x found := by
    obtain ⟨n, grown, found'⟩ := h.table x found
    obtain ⟨k, grown', found''⟩ := g.table _ found'
    exact ⟨k, Nat.le_trans grown grown', found''⟩
  others r hr := (g.others r hr).trans (h.others r hr)
  registrations := g.registrations.trans h.registrations
  schedulers := g.schedulers.trans h.schedulers
  names := g.names.trans h.names

/-- A call that lets go of nothing. -/
theorem Conserved.atomic (h : Conserved io w w') (q : EventCall) : Atomic io w q w' :=
  ⟨w', [], h, .inl rfl, release_nil w', .refl w'⟩

/-- What finishes a call leaves the table alone. -/
theorem Appends.holds {v : World} {added : Added} (h : Appends v w' added)
    (found : v.reactors.get? io.reactor = some x) (holds : x.table.Holds m) :
    ∀ y, w'.reactors.get? io.reactor = some y → y.table.Holds m := by
  intro y hy
  obtain ⟨z, hz, table, _⟩ := h.reactor _ y hy
  obtain rfl := Option.some.inj (found.symm.trans hz)
  rw [table]
  exact holds

/-- A call that lets go of the handler that it was given. -/
theorem Conserved.dropping {q : EventCall} {v : World} (h : Conserved io w v) {hs : List Handle}
    (free : ∀ r, .reactor r ∉ hs) (held : hs = [] ∨ hs = q.held w)
    (released : (release hs).on v = (.ok (), w')) : Atomic io w q w' := by
  obtain ⟨u, released', appends⟩ := release_on free v
  obtain rfl : u = w' := congrArg Prod.snd (released'.symm.trans released)
  exact ⟨v, hs, h, held, released, appends⟩

theorem disarm_concludes (manages : Manages io w) (found : w.reactors.get? io.reactor = some x)
    {q : EventCall} {late : Prop} (what : String) (finish : List Handler → Act Unit)
    {res : Kernel.State × Reactor.FdTable Handler × Reactor.FdTable.Disarmed Handler}
    (ends : Reactor.FdTable.Ends (Reactor.epollPoller x.epoll) w.kernel x.table q.fd
      (q.torn x.table) late res) (both : q.TakesBoth io w ↔ late)
    (runs : (q.act io).on w =
      (disarmed what finish res.2.2).on (w.withTable io.reactor res.1 res.2.1))
    (finishes : ∀ hs v, ∃ w' added, (finish hs).on v = (.ok (), w') ∧ Appends v w' added) :
    Concludes io w q (w.perform (q.act io)) := by
  cases ends with
  | absent apart =>
    rw [perform_of_ok runs]
    have kept := Conserved.of_withTable found (k := w.kernel) rfl (Nat.le_refl _)
    exact .fails (apart ∘ both.mp) (kept.atomic q)
  | refused before after apart told =>
    obtain ⟨_, epolls, _⟩ := Kernel.State.tell_failed told
    obtain ⟨w', logged, quiet⟩ := log_quiet .error _ (w.withTable io.reactor _ x.table)
    have ended := runs.trans (Act.on_bind_ok logged)
    rw [perform_of_ok ended]
    have kept := (Conserved.of_withTable found epolls (Nat.le_refl _)).quiet quiet
    exact .fails (apart ∘ both.mp) (kept.atomic q)
  | done apart holds =>
    obtain ⟨w', added, finished, appends⟩ := finishes _ (w.withTable io.reactor _ _)
    rw [perform_of_ok (runs.trans (Act.on_bind_ok finished))]
    exact .succeeds rfl (appends.manages (withTable_manages manages _ _))
      (appends.holds (withTable_get? found _ _) holds)
  | violated is told =>
    obtain ⟨w', ended, quiet⟩ :=
      violate_quiet (α := Signal) (.noEventContext .both) (w.withTable io.reactor _ _)
    have told' : (Reactor.epollPoller x.epoll).tell w.kernel q.fd .both .none = (_, .ok ()) := told
    obtain ⟨e, e', known, taken, kernel⟩ := Kernel.State.tell_ok told'
    rw [perform_of_panic (runs.trans ended)]
    refine .tears (both.mpr is) ⟨fun y hy => ?_, fun y hy => ?_, quiet.schedulers⟩
    · obtain rfl := Option.some.inj (found.symm.trans hy)
      rw [quiet.reactors]
      exact withTable_get? found _ _
    · obtain rfl := Option.some.inj (found.symm.trans hy)
      refine ⟨e, e', known, taken, ?_⟩
      rw [quiet.kernel]
      exact congrArg Kernel.State.epolls kernel

theorem takesBoth_iff (found : w.reactors.get? io.reactor = some x) (fd : Int) (e : Event) :
    (∃ x, w.reactors.get? io.reactor = some x ∧
        x.table.Late (Reactor.epollPoller x.epoll) w.kernel fd e) ↔
      x.table.Late (Reactor.epollPoller x.epoll) w.kernel fd e := by
  constructor
  · rintro ⟨y, hy, late⟩
    obtain rfl := Option.some.inj (found.symm.trans hy)
    exact late
  · exact fun late => ⟨x, found, late⟩

theorem fireAll_finishes (hs : List Handler) (v : World) :
    ∃ w' added, (fireAll hs).on v = (.ok (), w') ∧ Appends v w' added := by
  obtain ⟨w', queued, appends⟩ := fireAll_on hs v
  exact ⟨w', _, queued, appends⟩

theorem dropHandlers_finishes (hs : List Handler) (v : World) :
    ∃ w' added, (dropHandlers hs).on v = (.ok (), w') ∧ Appends v w' added := by
  obtain ⟨w', dropped, appends⟩ := dropHandlers_on hs v
  exact ⟨w', _, dropped, appends⟩

theorem delete_concludes (manages : Manages io w) (found : w.reactors.get? io.reactor = some x)
    (holds : x.table.Holds m) (fd : Int) (e : Event) :
    Concludes io w (.delete fd e) (w.perform ((EventCall.delete fd e).act io)) :=
  disarm_concludes manages found s!"del_event fd {fd} {e.render}" dropHandlers
    (holds.disarm_ends _ _ fd e).1 (takesBoth_iff found fd e)
    ((Act.on_bind_ok (reactorNamed_on manages)).trans (Act.on_bind_ok (onTable_on found rfl)))
    dropHandlers_finishes

theorem cancel_concludes (manages : Manages io w) (found : w.reactors.get? io.reactor = some x)
    (holds : x.table.Holds m) (fd : Int) (e : Event) :
    Concludes io w (.cancel fd e) (w.perform ((EventCall.cancel fd e).act io)) :=
  disarm_concludes manages found s!"cancel_event fd {fd} {e.render}" fireAll
    (holds.disarm_ends _ _ fd e).2 (takesBoth_iff found fd e)
    ((Act.on_bind_ok (reactorNamed_on manages)).trans (Act.on_bind_ok (onTable_on found rfl)))
    fireAll_finishes

theorem cancelAll_concludes (manages : Manages io w) (found : w.reactors.get? io.reactor = some x)
    (holds : x.table.Holds m) (fd : Int) :
    Concludes io w (.cancelAll fd) (w.perform ((EventCall.cancelAll fd).act io)) :=
  disarm_concludes manages found s!"cancel_all fd {fd}" fireAll
    (holds.cancelAll_ends _ _ fd _) Iff.rfl
    ((Act.on_bind_ok (reactorNamed_on manages)).trans (Act.on_bind_ok (onTable_on found rfl)))
    fireAll_finishes

/-- Nothing that a reactor, its poller or a queue depends on tells two worlds apart. -/
structure Aside (w w' : World) : Prop where
  reactors : w'.reactors = w.reactors
  kernel : w'.kernel = w.kernel
  schedulers : w'.schedulers = w.schedulers
  names : w'.names = w.names

theorem Conserved.aside {v : World} (h : Conserved io w v) (aside : Aside v w') :
    Conserved io w w' where
  table x found := by
    rw [aside.reactors]
    exact h.table x found
  others r hr := by
    rw [aside.reactors]
    exact h.others r hr
  registrations := by rw [aside.kernel, h.registrations]
  schedulers := aside.schedulers.trans h.schedulers
  names := aside.names.trans h.names

theorem Aside.appends (h : Aside w w') : Appends w w' .none :=
  .of_same h.schedulers h.reactors h.names

theorem Quiet.aside (h : Quiet w w') : Aside w w' := by
  obtain ⟨_, _, _, rfl, _⟩ := h
  exact ⟨rfl, rfl, rfl, rfl⟩

theorem Aside.trans {v : World} (h : Aside w v) (g : Aside v w') : Aside w w' :=
  ⟨g.reactors.trans h.reactors, g.kernel.trans h.kernel, g.schedulers.trans h.schedulers,
    g.names.trans h.names⟩

theorem currentOrMain_aside {id : FiberId} (current : w.thread.current = some id) :
    ∃ w', currentOrMain.on w = (.ok id, w') ∧ Aside w w' := by
  let v : World :=
    { w with
      threads := w.threads.modify w.running fun t =>
        { t with current := some id, main := if t.current.isNone then some id else t.main } }
  refine ⟨v, ?_, rfl, rfl, rfl, rfl⟩
  rw [currentOrMain, Act.on_bind_get, current]
  rfl

theorem current_of_inFiber (h : w.inFiber = true) : ∃ id, w.thread.current = some id := by
  cases current : w.thread.current with
  | some id => exact ⟨id, rfl⟩
  | none =>
    rw [World.inFiber, current] at h
    cases h

/-- The task that an event is to queue is there, or there is a rule against it. -/
theorem eventTask_on (given : Option (Task Body)) (w : World) :
    (∃ v w', (eventTask given).on w = (.error (.panic (.violation v)), w') ∧ Aside w w') ∨
      ∃ task w', (eventTask given).on w = (.ok task, w') ∧ Aside w w' ∧
        taskHandles task = (EventCall.add 0 .none given).held w := by
  cases given with
  | some task => exact .inr ⟨task, w, rfl, ⟨rfl, rfl, rfl, rfl⟩, rfl⟩
  | none =>
    rw [eventTask, Act.on_bind_get]
    cases inside : w.inFiber with
    | false =>
      left
      obtain ⟨w', violated, quiet⟩ := violate_quiet (α := PUnit) .handlerMissing w
      exact ⟨_, w', Act.on_bind_error violated, quiet.aside⟩
    | true =>
      obtain ⟨id, current⟩ := current_of_inFiber inside
      obtain ⟨v, known, aside⟩ := currentOrMain_aside current
      simp only [Bool.not_true, Bool.false_eq_true, if_false]
      rw [Act.on_bind_ok known]
      split
      · left
        obtain ⟨w', violated, quiet⟩ :=
          violate_quiet (α := PUnit) (.captureInState id.val (w.fibers.state id)) v
        exact ⟨_, w', Act.on_bind_error violated, aside.trans quiet.aside⟩
      · right
        refine ⟨.fiber id, { v with fibers := v.fibers.retain id }, rfl, ?_, ?_⟩
        · exact aside.trans ⟨rfl, rfl, rfl, rfl⟩
        · rw [EventCall.held, current]
          rfl

/-- An attempt to arm an event of a number that the table has room for, once the task is known. -/
theorem arm_concludes {q : EventCall} {v : World} (manages : Manages io v) (kept : Conserved io w v)
    (found : v.reactors.get? io.reactor = some x) (holds : x.table.Holds m) {fd : Int} {e : Event}
    (single : e.isSingle = true) (inside : 0 ≤ fd ∧ fd < x.table.size) {task : Task Body}
    (held : taskHandles task = q.held w) (apart : ¬q.TakesBoth io w) (target : SchedulerId)
    (runs : (q.act io).on w =
      (onTable io.reactor (fun poller k t => t.arm poller k fd e ⟨target, task⟩) >>=
        armed fd task target).on v) : Concludes io w q (w.perform (q.act io)) := by
  have free := taskHandles_free task
  have worked : ∀ {k t res},
      x.table.arm (Reactor.epollPoller x.epoll) v.kernel fd e ⟨target, task⟩ = (k, t, res) →
        (q.act io).on w = (armed fd task target res).on (v.withTable io.reactor k t) := fun res =>
    runs.trans (Act.on_bind_ok (onTable_on found res))
  have again : ∀ {k}, k.epolls = v.kernel.epolls →
      Conserved io w (v.withTable io.reactor k x.table) := fun epolls =>
    kept.trans (.of_withTable found epolls (Nat.le_refl _))
  cases occupied : m.contains (fd, e) with
  | true =>
    obtain ⟨u, w', quiet, released, violated, _⟩ :=
      violateReleasing_on (α := Signal) (.alreadyWaiting fd e) free
        (v.withTable io.reactor v.kernel x.table)
    rw [perform_of_panic ((worked (holds.arm_occupied single occupied _)).trans violated)]
    exact .fails apart (((again rfl).quiet quiet).dropping free (.inr held) released)
  | false =>
    have asked : x.table.arm (Reactor.epollPoller x.epoll) v.kernel fd e ⟨target, task⟩ = _ :=
      holds.arm_eq single occupied ⟨target, task⟩
    rcases told : (Reactor.epollPoller x.epoll).tell v.kernel fd (m.armed fd)
      ((m.armed fd).union e) with ⟨k, cause | ⟨⟩⟩
    · rw [told] at asked
      obtain ⟨u, w', quiet, released, refused, _⟩ := armed_refused_on fd task target
        (if (m.armed fd).isEmpty then .add else .modify) ((m.armed fd).union e) cause
        (v.withTable io.reactor k x.table)
      obtain ⟨_, epolls, _⟩ := Kernel.State.tell_failed told
      rw [perform_of_failure ((worked asked).trans refused)]
      exact .fails apart (((again epolls).quiet quiet).dropping free (.inr held) released)
    · rw [told] at asked
      obtain ⟨w', retained, appends⟩ := retain_scheduler_on target (v.withTable io.reactor k _)
      rw [perform_of_ok ((worked asked).trans (Act.on_bind_ok retained))]
      exact .succeeds rfl (appends.manages (withTable_manages manages _ _))
        (appends.holds (withTable_get? found _ _) (holds.put single inside occupied _))

/-- The first part of an attempt to arm an event, up to the question for its task. -/
theorem addEvent_reserved (found : w.reactors.get? io.reactor = some x) {fd : Int} {e : Event}
    (single : e.isSingle = true) {t : Reactor.FdTable Handler} {grown : Option Nat}
    (reserved : x.table.reserve fd = .ok (t, grown)) (given : Option (Task Body)) :
    ∃ v, Quiet (w.withTable io.reactor w.kernel t) v ∧
      (addEvent io.scheduler io.reactor fd e given).on w =
        (eventTask given >>= fun task => currentScheduler >>= fun s =>
          onTable io.reactor (fun poller k t =>
            t.arm poller k fd e ⟨s.getD io.scheduler, task⟩) >>=
          armed fd task (s.getD io.scheduler)).on v := by
  unfold addEvent
  simp only [single, Bool.not_true, if_false, Bool.false_eq_true]
  rw [Act.on_bind_ok (reactorRecord_on found), reserved]
  dsimp only
  rw [Act.on_bind_modify]
  cases grown with
  | none => exact ⟨_, .refl _, rfl⟩
  | some size =>
    obtain ⟨v, logged, quiet⟩ := log_quiet .debug
      s!"fd table grown to {size} entries for fd {fd}" (w.withTable io.reactor w.kernel t)
    exact ⟨v, quiet, Act.on_bind_ok logged⟩

theorem add_concludes (manages : Manages io w) (found : w.reactors.get? io.reactor = some x)
    (holds : x.table.Holds m) (fd : Int) (e : Event) (given : Option (Task Body)) :
    Concludes io w (.add fd e given) (w.perform ((EventCall.add fd e given).act io)) := by
  have apart : ¬(EventCall.add fd e given).TakesBoth io w := id
  have kept : Conserved io w w := .refl w
  have held : (given.map taskHandles).getD [] = [] ∨
      (given.map taskHandles).getD [] = (EventCall.add fd e given).held w := by
    cases given with
    | none => exact .inl rfl
    | some task => exact .inr rfl
  have free : ∀ r, .reactor r ∉ (given.map taskHandles).getD [] := by
    cases given with
    | none => exact fun r => List.not_mem_nil
    | some task => exact taskHandles_free task
  cases single : e.isSingle with
  | false =>
    obtain ⟨u, w', quiet, released, violated, _⟩ :=
      violateReleasing_on (α := PUnit) (.eventNotSingle e) free w
    have run : (addEvent io.scheduler io.reactor fd e given).on w =
        (.error (.panic (.violation (.eventNotSingle e))), w') := by
      unfold addEvent
      simp only [single, Bool.not_false, if_true]
      exact Act.on_bind_error violated
    rw [EventCall.act, perform_of_panic run]
    exact .fails apart ((kept.quiet quiet).dropping free held released)
  | true =>
    cases reserved : x.table.reserve fd with
    | error fault =>
      obtain ⟨w', released, _⟩ := release_on free w
      have run : (addEvent io.scheduler io.reactor fd e given).on w =
          (.error (.failure (.fault fault)), w') := by
        unfold addEvent
        simp only [single, Bool.not_true, if_false, Bool.false_eq_true]
        rw [Act.on_bind_ok (reactorRecord_on found), reserved]
        exact Act.on_bind_ok released
      rw [EventCall.act, perform_of_failure run]
      exact .fails apart (kept.dropping free held released)
    | ok res =>
      obtain ⟨t, grown⟩ := res
      obtain ⟨holds', inside⟩ := holds.reserve reserved
      obtain ⟨v, quiet, run⟩ := addEvent_reserved found single reserved given
      obtain ⟨n, room, rfl⟩ := Reactor.FdTable.reserve_grows reserved
      have reserving : Conserved io w v := (Conserved.of_withTable found rfl room).quiet quiet
      rcases eventTask_on given v with ⟨_, w', violated, aside⟩ | ⟨task, u, known, aside, handles⟩
      · rw [EventCall.act, perform_of_panic (run.trans (Act.on_bind_error violated))]
        exact .fails apart ((reserving.aside aside).atomic _)
      · have manages' : Manages io u :=
          aside.appends.manages (quiet.appends.manages (withTable_manages manages _ _))
        have found' : u.reactors.get? io.reactor =
            some { x with table := { x.table with size := n } } := by
          rw [aside.reactors, quiet.reactors]
          exact withTable_get? found _ _
        have handles' : taskHandles task = (EventCall.add fd e given).held w := by
          have thread : v.thread = w.thread := by
            obtain ⟨_, _, _, rfl, _⟩ := quiet
            rfl
          rw [handles]
          cases given with
          | some task => rfl
          | none => rw [EventCall.held, EventCall.held, thread]
        exact arm_concludes manages' (reserving.aside aside) found' holds' single inside handles'
          apart _ (run.trans ((Act.on_bind_ok known).trans (Act.on_bind_ok rfl)))

theorem call_concludes (manages : Manages io w)
    (holds : ∀ x, w.reactors.get? io.reactor = some x → x.table.Holds m) (q : EventCall) :
    Concludes io w q (w.perform (q.act io)) := by
  obtain ⟨x, found, _⟩ := id manages.held
  cases q with
  | add fd e given => exact add_concludes manages found (holds x found) fd e given
  | delete fd e => exact delete_concludes manages found (holds x found) fd e
  | cancel fd e => exact cancel_concludes manages found (holds x found) fd e
  | cancelAll fd => exact cancelAll_concludes manages found (holds x found) fd

/-- The worlds that calls of any kind reach, those that fail among them, with reports of the poller
and any other code between them, as long as no call has disarmed both events of a number. -/
inductive Works (io : Manager) (start : World) : World → Prop where
  | start : Works io start start
  | elsewhere {w w' : World} (run : Works io start w) (manages : Manages io w')
      (table : ∀ x x', w.reactors.get? io.reactor = some x →
        w'.reactors.get? io.reactor = some x' → x'.table = x.table) : Works io start w'
  | reported {w : World} (run : Works io start w) (found : List (Int × Event)) :
      Works io start (w.perform ((Request.dispatch found).act io)).2
  | call {w : World} (run : Works io start w) (q : EventCall) (apart : ¬q.TakesBoth io w) :
      Works io start (w.perform (q.act io)).2

theorem Conserved.manages {v : World} (h : Conserved io w v) (manages : Manages io w) :
    Manages io v := by
  obtain ⟨x, found, held⟩ := id manages.held
  obtain ⟨n, _, found'⟩ := h.table x found
  refine ⟨h.names ▸ manages.named, _, found', ?_⟩
  unfold World.hooked
  rw [h.schedulers]
  exact held

/-- A call that changed nothing leaves the table to its registry. -/
theorem Atomic.holds {q : EventCall} (atomic : Atomic io w q w') (manages : Manages io w)
    (holds : ∀ x, w.reactors.get? io.reactor = some x → x.table.Holds m) :
    Manages io w' ∧ ∀ x, w'.reactors.get? io.reactor = some x → x.table.Holds m := by
  obtain ⟨v, dropped, kept, _, released, appends⟩ := atomic
  obtain ⟨x, found, _⟩ := id manages.held
  obtain ⟨n, grown, found'⟩ := kept.table x found
  exact ⟨appends.manages (kept.manages manages), appends.holds found' ((holds x found).grow grown)⟩

/-- What is there of the table after a call that changed nothing was there before it. -/
theorem Atomic.table {q : EventCall} {y : ReactorRecord} (atomic : Atomic io w q w')
    (found : w.reactors.get? io.reactor = some x) (found' : w'.reactors.get? io.reactor = some y) :
    y.table.slots = x.table.slots ∧ y.table.pending = x.table.pending := by
  obtain ⟨v, _, kept, _, _, appends⟩ := atomic
  obtain ⟨n, _, between⟩ := kept.table x found
  obtain ⟨z, hz, table, _⟩ := appends.reactor _ y found'
  obtain rfl := Option.some.inj (between.symm.trans hz)
  rw [table]
  exact ⟨rfl, rfl⟩

/-- Every call keeps the table to some registry, unless it disarms both events of a number. -/
theorem works_holds (manages : Manages io start)
    (fresh : ∀ x, start.reactors.get? io.reactor = some x →
      ∃ n, Reactor.FdTable.fresh n = .ok x.table) (run : Works io start w) :
    Manages io w ∧ ∃ m, ∀ x, w.reactors.get? io.reactor = some x → x.table.Holds m := by
  induction run with
  | start =>
    refine ⟨manages, .empty, fun x found => ?_⟩
    obtain ⟨n, made⟩ := fresh x found
    exact Reactor.FdTable.holds_fresh made
  | elsewhere _ manages' table ih =>
    obtain ⟨manages, m, holds⟩ := ih
    refine ⟨manages', m, fun x' found' => ?_⟩
    obtain ⟨x, found, _⟩ := manages.held
    rw [table x x' found found']
    exact holds x found
  | reported _ reports ih =>
    obtain ⟨manages, m, holds⟩ := ih
    have leads := (request_served manages holds (.dispatch reports) trivial).leads
    exact ⟨leads.manages, _, leads.table⟩
  | @call w _ q apart ih =>
    obtain ⟨manages, m, holds⟩ := ih
    have concludes := call_concludes manages holds q
    generalize w.perform (q.act io) = ended at concludes ⊢
    cases concludes with
    | succeeds _ manages' holds' => exact ⟨manages', _, holds'⟩
    | fails _ atomic =>
      obtain ⟨manages', holds'⟩ := atomic.holds manages holds
      exact ⟨manages', m, holds'⟩
    | tears both _ => exact absurd both apart

/-- A call that does not succeed has changed nothing, whether it failed, broke off or answered no,
unless it was to disarm both events of a number and the poller agreed: then it is refused, but the
number is taken out and its events are disarmed. -/
theorem failed_calls_are_atomic_unless_both (manages : Manages io start)
    (fresh : ∀ x, start.reactors.get? io.reactor = some x →
      ∃ n, Reactor.FdTable.fresh n = .ok x.table) (run : Works io start w) (q : EventCall)
    (failed : (w.perform (q.act io)).1.isFailure = true) :
    (¬q.TakesBoth io w → Atomic io w q (w.perform (q.act io)).2) ∧
      (q.TakesBoth io w →
        (w.perform (q.act io)).1 = .raised (.violation (.noEventContext .both)) ∧
          Tears io w q (w.perform (q.act io)).2) := by
  obtain ⟨manages', m, holds⟩ := works_holds manages fresh run
  have concludes := call_concludes manages' holds q
  generalize w.perform (q.act io) = ended at concludes failed ⊢
  cases concludes with
  | succeeds good =>
    rw [good] at failed
    cases failed
  | fails apart atomic => exact ⟨fun _ => atomic, fun both => absurd both apart⟩
  | tears both torn => exact ⟨fun apart => absurd both apart, fun _ => ⟨rfl, torn⟩⟩

def readerTask : Task Body := .callback (.script 0 "reader")

def writerTask : Task Body := .callback (.script 0 "writer")

/-- The watching world after both events of a number were armed. -/
def doublyArmed : World :=
  let once := (watchingWorld.perform
    ((EventCall.add 3 .readable (some readerTask)).act watcher)).2
  (once.perform ((EventCall.add 3 .writable (some writerTask)).act watcher)).2

theorem doublyArmed_works : Works watcher watchingWorld doublyArmed :=
  (Works.start.call (.add 3 .readable (some readerTask)) id).call
    (.add 3 .writable (some writerTask)) id

theorem doublyArmed_late : (EventCall.delete 3 .both).TakesBoth watcher doublyArmed := by
  refine ⟨_, rfl, rfl, ?_, ?_⟩
  · decide +kernel
  · rfl

/-- To arm an event once more is refused and changes nothing. To disarm both events of the number
is refused as well, but the number is taken out. -/
theorem refused_calls_of_doubly_armed :
    Atomic watcher doublyArmed (.add 3 .readable none)
        (doublyArmed.perform ((EventCall.add 3 .readable none).act watcher)).2 ∧
      Tears watcher doublyArmed (.delete 3 .both)
        (doublyArmed.perform ((EventCall.delete 3 .both).act watcher)).2 :=
  ⟨(failed_calls_are_atomic_unless_both watchingWorld_manages watchingWorld_fresh doublyArmed_works
      (.add 3 .readable none) rfl).1 id,
    ((failed_calls_are_atomic_unless_both watchingWorld_manages watchingWorld_fresh
      doublyArmed_works (.delete 3 .both) rfl).2 doublyArmed_late).2⟩

/-- Both events of a number are armed, and one call is to disarm them. -/
def bothScript : Program :=
  ⟨#[[.perform "io_new" (.reactor (.new "io" ⟨false, .empty, [.threads 1, .useCaller true]⟩ none)),
      .perform "socketpair" (.reactor (.socketPair 3 4)),
      .perform "on_event" (.reactor (.on "io" 3 .readable (.block 1))),
      .perform "on_event" (.reactor (.on "io" 3 .writable (.block 2))),
      .perform "pending" (.reactor (.pending "io")),
      .perform "del_event" (.reactor (.delete "io" 3 .both)),
      .perform "pending" (.reactor (.pending "io"))],
    [.perform "log" (.fiber (.log (.text "r")))],
    [.perform "log" (.fiber (.log (.text "w")))]]⟩

def bothAfter (rounds : Nat) : World :=
  (World.start bothScript .frozen .empty .fresh false none "main").runUpTo rounds

/-- The manager that a script makes before anything else. -/
def firstManager : Manager := ⟨"io", 3, 2⟩

/-- The call is refused for a rule, and one registration less is pending afterwards. -/
theorem disarming_both_is_not_atomic :
    (((bothAfter 13).perform ((EventCall.delete 3 .both).act firstManager)).1.isFailure = true) ∧
      ¬Atomic firstManager (bothAfter 13) (.delete 3 .both)
        ((bothAfter 13).perform ((EventCall.delete 3 .both).act firstManager)).2 ∧
      (bothAfter 60).reports.map (fun a => (a.1, a.2.compact)) =
        [("io_new", "\"ok\""), ("socketpair", "null"), ("on_event", "\"ok\""),
          ("on_event", "\"ok\""), ("pending", "2"),
          ("del_event", "\x7b\"error\":\"ContractViolation\"," ++
            "\"message\":\"no single event context for READ|WRITE\"\x7d"),
          ("pending", "1")] := by
  refine ⟨by decide +kernel, fun atomic => ?_, by decide +kernel⟩
  have before : ((bothAfter 13).reactors.get? 2).map (·.table.pending) = some 2 := by
    decide +kernel
  have after :
      (((bothAfter 13).perform ((EventCall.delete 3 .both).act firstManager)).2.reactors.get?
        2).map (·.table.pending) = some 1 := by decide +kernel
  obtain ⟨x, found, two⟩ := Option.map_eq_some_iff.mp before
  obtain ⟨y, found', one⟩ := Option.map_eq_some_iff.mp after
  have same := (atomic.table found found').2
  rw [two, one] at same
  cases same

end Script

end Fibers
