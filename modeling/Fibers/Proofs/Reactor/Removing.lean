import Fibers.Proofs.Reactor.Atomic
import Fibers.Proofs.Reactor.Tally
import Fibers.Proofs.Reactor.Watching

/-!
Disarming what is armed. A call that disarms asks the kernel first, and the kernel agrees exactly if
it knows the number: if the number still names an open file that the reactor's set has under that
number. Then the events are disarmed and not pending any more. A number that was closed or reused
since it was armed is not known: the call answers no, and the events stay armed and pending.
-/

namespace Fibers

namespace Kernel

theorem Epoll.target_eq_ok {d : Descriptors} {fd : Int} {i : Nat} {f : OpenFile}
    (named : d.file? fd = some (i, f)) (pollable : Descriptors.pollable f = true) :
    target d fd = .ok (i, f) := by
  simp only [target, named, pollable, if_true]

namespace State

variable {k : State} {id : Nat} {fd : Int} {before after : Event}

/-- Control calls go through for a number that is in a set: no call is made to fail, and the number
names an open file that the set has under the number. -/
def Knows (k : State) (id : Nat) (fd : Int) : Prop :=
  k.faults.get? .epollCtl = none ∧ ∃ e i f, k.epolls.get? id = some e ∧
    k.descriptors.file? fd = some (i, f) ∧ Descriptors.pollable f = true ∧
      (e.find? i fd).isSome = true

/-- What is armed of a number changes exactly if the number is known. -/
theorem agreed_iff_knows (armed : before.isEmpty = false) {k' : State} {res : Except OsError Unit}
    (told : (Reactor.epollPoller id).tell k fd before after = (k', res)) :
    res = .ok () ↔ k.Knows id fd := by
  constructor
  · rintro rfl
    obtain ⟨e, e', found, done, -⟩ := tell_ok told
    have calm : k.faults.get? .epollCtl = none := by
      cases fault : k.faults.get? .epollCtl with
      | none => rfl
      | some n => simp [tell_eq, control, takeFault, fault] at told
    have member : ∃ i f, Epoll.target k.descriptors fd = .ok (i, f) ∧
        (e.find? i fd).isSome = true := by
      simp only [Epoll.tell, armed, Bool.false_eq_true, if_false] at done
      split at done
      all_goals
        simp only [Epoll.deregister, Epoll.modify] at done
        cases target : Epoll.target k.descriptors fd with
        | error c => simp [target] at done
        | ok r =>
          cases known : e.find? r.1 fd with
          | none => simp [target, known] at done
          | some _ => exact ⟨r.1, r.2, rfl, by rw [known]; rfl⟩
    obtain ⟨i, f, target, known⟩ := member
    obtain ⟨named, pollable⟩ := Epoll.target_ok target
    exact ⟨calm, e, i, f, found, named, pollable, known⟩
  · rintro ⟨calm, e, i, f, found, named, pollable, known⟩
    have target := Epoll.target_eq_ok named pollable
    obtain ⟨r, known⟩ := Option.isSome_iff_exists.mp known
    have done : ∃ e', e.tell k.descriptors fd before after = .ok e' := by
      simp only [Epoll.tell, armed, Bool.false_eq_true, if_false]
      split
      · simp [Epoll.deregister, target, known]
      · simp [Epoll.modify, target, known]
    obtain ⟨e', done⟩ := done
    rw [tell_calm calm found done] at told
    exact (Prod.mk.inj told).2.symm

end State

end Kernel

namespace Script

open Reactor.FdTable (Tallied Disarms)

variable {io : Manager} {start w w' : World} {x : ReactorRecord}

/-- The worlds that calls of any kind reach, those that fail or break off among them, with reports
of the poller and any other code between them. -/
inductive Called (io : Manager) (start : World) : World → Prop where
  | start : Called io start start
  | elsewhere {w w' : World} (run : Called io start w) (manages : Manages io w')
      (table : ∀ x x', w.reactors.get? io.reactor = some x →
        w'.reactors.get? io.reactor = some x' → x'.table = x.table) : Called io start w'
  | reported {w : World} (run : Called io start w) (found : List (Int × Event)) :
      Called io start (w.perform ((Request.dispatch found).act io)).2
  | call {w : World} (run : Called io start w) (q : EventCall) :
      Called io start (w.perform (q.act io)).2

/-- A manager's reactor has a tallied table. -/
structure Tallies (io : Manager) (w : World) : Prop where
  manages : Manages io w
  tallied : ∀ x, w.reactors.get? io.reactor = some x → x.table.Tallied

theorem Tallies.appends {v : World} {added : Added} (h : Tallies io v)
    (appends : Appends v w added) : Tallies io w where
  manages := appends.manages h.manages
  tallied y hy := by
    obtain ⟨x, hx, table, -⟩ := appends.reactor _ y hy
    rw [table]
    exact h.tallied x hx

theorem Tallies.withTable (manages : Manages io w) (found : w.reactors.get? io.reactor = some x)
    (k : Kernel.State) {t : Reactor.FdTable Handler} (tallied : t.Tallied) :
    Tallies io (w.withTable io.reactor k t) where
  manages := withTable_manages manages k t
  tallied y hy := by
    obtain rfl := Option.some.inj ((withTable_get? found k t).symm.trans hy)
    exact tallied

/-- Whether a call disarms. -/
def EventCall.disarms : EventCall → Bool
  | add .. => false
  | _ => true

/-- A call that disarms a single event, or whatever is armed of a number. -/
def EventCall.Removes : EventCall → Prop
  | add .. => False
  | delete _ e | cancel _ e => e.isSingle = true
  | cancelAll _ => True

theorem EventCall.Removes.disarms {q : EventCall} (removes : q.Removes) : q.disarms = true := by
  cases q with
  | add => exact removes.elim
  | delete | cancel | cancelAll => rfl

/-- The events that a call is to disarm, where `armed` is the mask of its number. -/
def EventCall.gone (armed : Event) : EventCall → Event
  | delete _ e | cancel _ e => e
  | cancelAll _ => armed
  | add .. => .none

/-- How an attempt to disarm is answered. -/
def disarmSignal : Reactor.FdTable.Disarmed Handler → Signal
  | .absent | .refused _ => .done (.flag false)
  | .done _ => .done (.flag true)
  | .violated v => .raised (.violation v)

theorem disarmed_ends (what : String) {finish : List Handler → Act Unit}
    (finishes : ∀ hs v, ∃ w' added, (finish hs).on v = (.ok (), w') ∧ Appends v w' added)
    (res : Reactor.FdTable.Disarmed Handler) (v : World) :
    ∃ w' added, v.perform (disarmed what finish res) = (disarmSignal res, w') ∧
      Appends v w' added ∧ ((∀ hs, res ≠ .done hs) → Quiet v w') := by
  cases res with
  | absent => exact ⟨v, .none, rfl, .refl v, fun _ => .refl v⟩
  | refused cause =>
    obtain ⟨w', logged, quiet⟩ := log_quiet .error s!"{what}: {cause.render}" v
    exact ⟨w', .none, perform_of_ok (Act.on_bind_ok logged), quiet.appends, fun _ => quiet⟩
  | done hs =>
    obtain ⟨w', added, finished, appends⟩ := finishes hs v
    exact ⟨w', added, perform_of_ok (Act.on_bind_ok finished), appends,
      fun no => absurd rfl (no hs)⟩
  | violated cause =>
    obtain ⟨w', ended, quiet⟩ := violate_quiet (α := Signal) cause v
    exact ⟨w', .none, perform_of_panic ended, quiet.appends, fun _ => quiet⟩

/-- What becomes of a call that disarms, on a tallied table. -/
theorem disarms_on (tallies : Tallies io w) (found : w.reactors.get? io.reactor = some x)
    {q : EventCall} (disarms : q.disarms = true) :
    ∃ k t res w' added,
      Disarms (Reactor.epollPoller x.epoll) w.kernel x.table q.fd (q.gone (x.table.mask q.fd))
        (¬q.Removes) (k, t, res) ∧
      w.perform (q.act io) = (disarmSignal res, w') ∧
      Appends (w.withTable io.reactor k t) w' added ∧
      ((∀ hs, res ≠ .done hs) → Quiet (w.withTable io.reactor k t) w') := by
  have named := reactorNamed_on tallies.manages
  have tallied := tallies.tallied x found
  have ends : ∀ {k t res} (what : String) {finish : List Handler → Act Unit},
      (∀ hs v, ∃ w' added, (finish hs).on v = (.ok (), w') ∧ Appends v w' added) →
      (q.act io).on w = (disarmed what finish res).on (w.withTable io.reactor k t) →
      ∃ w' added, w.perform (q.act io) = (disarmSignal res, w') ∧
        Appends (w.withTable io.reactor k t) w' added ∧
        ((∀ hs, res ≠ .done hs) → Quiet (w.withTable io.reactor k t) w') := by
    intro k t res what finish finishes runs
    rw [perform_congr runs]
    exact disarmed_ends what finishes res _
  cases q with
  | add fd e given => cases disarms
  | delete fd e =>
    obtain ⟨w', added, ended⟩ := ends s!"del_event fd {fd} {e.render}"
      dropHandlers_finishes ((Act.on_bind_ok named).trans (Act.on_bind_ok (onTable_on found rfl)))
    exact ⟨_, _, _, w', added, Reactor.FdTable.delete_disarms tallied fd e
      fun several => Bool.eq_false_iff.mp several, ended⟩
  | cancel fd e =>
    obtain ⟨w', added, ended⟩ := ends s!"cancel_event fd {fd} {e.render}"
      fireAll_finishes ((Act.on_bind_ok named).trans (Act.on_bind_ok (onTable_on found rfl)))
    exact ⟨_, _, _, w', added, Reactor.FdTable.cancel_disarms tallied fd e
      fun several => Bool.eq_false_iff.mp several, ended⟩
  | cancelAll fd =>
    obtain ⟨w', added, ended⟩ := ends s!"cancel_all fd {fd}"
      fireAll_finishes ((Act.on_bind_ok named).trans (Act.on_bind_ok (onTable_on found rfl)))
    exact ⟨_, _, _, w', added, Reactor.FdTable.cancelAll_disarms tallied fd _,
      ended⟩

theorem disarms_tallies (tallies : Tallies io w) {q : EventCall} (disarms : q.disarms = true) :
    Tallies io (w.perform (q.act io)).2 := by
  obtain ⟨x, found, _⟩ := id tallies.manages.held
  have tallied := tallies.tallied x found
  obtain ⟨k, t, res, w', added, how, ended, appends, _⟩ := disarms_on tallies found disarms
  rw [ended]
  refine (Tallies.withTable tallies.manages found k ?_).appends appends
  cases how with
  | absent => exact tallied
  | refused => exact tallied
  | done _ _ tallied' => exact tallied'
  | violated _ tallied' => exact tallied'

theorem armed_ends (fd : Int) (task : Task Body) (target : SchedulerId)
    (res : Reactor.FdTable.Armed) (v : World) :
    Appends v (v.perform (armed fd task target res)).2 .none := by
  cases res with
  | done =>
    obtain ⟨w', retained, appends⟩ := retain_scheduler_on target v
    have ended : (armed fd task target .done).on v = (.ok (.done .ok), w') :=
      Act.on_bind_ok retained
    rw [perform_of_ok ended]
    exact appends
  | refused op interest cause =>
    obtain ⟨_, w', _, _, refused, appends⟩ :=
      armed_refused_on fd task target op interest cause v
    rw [perform_of_failure refused]
    exact appends
  | violated cause =>
    obtain ⟨_, w', _, _, violated, appends⟩ :=
      violateReleasing_on (α := Signal) cause (taskHandles_free task) v
    have ended : (armed fd task target (.violated cause)).on v =
        (.error (.panic (.violation cause)), w') := violated
    rw [perform_of_panic ended]
    exact appends

theorem add_tallies (tallies : Tallies io w) (fd : Int) (e : Event) (given : Option (Task Body)) :
    Tallies io (w.perform ((EventCall.add fd e given).act io)).2 := by
  obtain ⟨x, found, _⟩ := id tallies.manages.held
  have free : ∀ r, .reactor r ∉ (given.map taskHandles).getD [] := by
    cases given with
    | none => exact fun r => List.not_mem_nil
    | some task => exact taskHandles_free task
  cases single : e.isSingle with
  | false =>
    obtain ⟨u, w', _, _, violated, appends⟩ :=
      violateReleasing_on (α := PUnit) (.eventNotSingle e) free w
    have run : (addEvent io.scheduler io.reactor fd e given).on w =
        (.error (.panic (.violation (.eventNotSingle e))), w') := by
      unfold addEvent
      simp only [single, Bool.not_false, if_true]
      exact Act.on_bind_error violated
    rw [EventCall.act, perform_of_panic run]
    exact tallies.appends appends
  | true =>
    cases reserved : x.table.reserve fd with
    | error fault =>
      obtain ⟨w', released, appends⟩ := release_on free w
      have run : (addEvent io.scheduler io.reactor fd e given).on w =
          (.error (.failure (.fault fault)), w') := by
        unfold addEvent
        simp only [single, Bool.not_true, if_false, Bool.false_eq_true]
        rw [Act.on_bind_ok (reactorRecord_on found), reserved]
        exact Act.on_bind_ok released
      rw [EventCall.act, perform_of_failure run]
      exact tallies.appends appends
    | ok res =>
      obtain ⟨t, grown⟩ := res
      obtain ⟨v, quiet, run⟩ := addEvent_reserved found single reserved given
      obtain ⟨n, room, rfl⟩ := Reactor.FdTable.reserve_grows reserved
      have reserving := (Tallies.withTable tallies.manages found w.kernel
        ((tallies.tallied x found).grow room)).appends quiet.appends
      rcases eventTask_on given v with ⟨_, w', violated, aside⟩ | ⟨task, u, known, aside, _⟩
      · rw [EventCall.act, perform_of_panic (run.trans (Act.on_bind_error violated))]
        exact reserving.appends aside.appends
      · have known' := run.trans ((Act.on_bind_ok known).trans (Act.on_bind_ok rfl))
        have found' : u.reactors.get? io.reactor =
            some { x with table := { x.table with size := n } } := by
          rw [aside.reactors, quiet.reactors]
          exact withTable_get? found _ _
        have tallies' := reserving.appends aside.appends
        have tallied := Reactor.FdTable.arm_tallied (Reactor.epollPoller x.epoll) u.kernel
          (tallies'.tallied _ found') single
          (Reactor.FdTable.reserve_inside reserved)
          ⟨u.currentScheduler.getD io.scheduler, task⟩
        rw [EventCall.act, perform_congr (known'.trans (Act.on_bind_ok (onTable_on found' rfl)))]
        exact (Tallies.withTable tallies'.manages found' _ tallied).appends (armed_ends ..)

theorem reported_ends (fd : Int) (d : Reactor.FdTable.Dispatched Handler) (v : World) :
    ∃ res w' added, (reported fd d).on v = (res, w') ∧ Appends v w' added ∧
      (res = .ok () ∨ ∃ c, res = .error (.panic c)) := by
  cases d with
  | ignored => exact ⟨_, v, .none, rfl, .refl v, .inl rfl⟩
  | refused left cause =>
    obtain ⟨w', logged, quiet⟩ := log_quiet .error
      s!"re-arming fd {fd} with {left.render}: {cause.render}" v
    exact ⟨_, w', .none, logged, quiet.appends, .inl rfl⟩
  | violated cause =>
    obtain ⟨w', ended, quiet⟩ := violate_quiet (α := Unit) cause v
    exact ⟨_, w', .none, ended, quiet.appends, .inr ⟨_, rfl⟩⟩
  | fired hs =>
    obtain ⟨w', queued, appends⟩ := fireAll_on hs v
    exact ⟨_, w', _, queued, appends, .inl rfl⟩

theorem dispatch_tallies (tallies : Tallies io w) (found : List (Int × Event)) :
    Tallies io (w.perform ((Request.dispatch found).act io)).2 := by
  suffices ends : ∃ res w', (dispatch io.reactor found).on w = (res, w') ∧ Tallies io w' ∧
      (res = .ok () ∨ ∃ c, res = .error (.panic c)) by
    obtain ⟨res, w', ended, tallies', rfl | ⟨c, rfl⟩⟩ := ends
    · have done : ((Request.dispatch found).act io).on w = (.ok (.done .null), w') :=
        Act.on_bind_ok ended
      rw [perform_of_ok done]
      exact tallies'
    · have broken : ((Request.dispatch found).act io).on w = (.error (.panic c), w') :=
        Act.on_bind_error ended
      rw [perform_of_panic broken]
      exact tallies'
  induction found generalizing w with
  | nil => exact ⟨_, w, rfl, tallies, .inl rfl⟩
  | cons record rest ih =>
    obtain ⟨fd, e⟩ := record
    obtain ⟨x, there, _⟩ := id tallies.manages.held
    rcases worked : x.table.dispatch (Reactor.epollPoller x.epoll) w.kernel fd e with ⟨k, t, d⟩
    have tallied := Reactor.FdTable.dispatch_tallied (Reactor.epollPoller x.epoll) w.kernel
      (tallies.tallied x there) fd e
    rw [worked] at tallied
    obtain ⟨res, v, added, handled, appends, how⟩ := reported_ends fd d (w.withTable io.reactor k t)
    have tallies' := (Tallies.withTable tallies.manages there k tallied).appends appends
    rw [dispatch_cons]
    have first : ((onTable io.reactor fun poller k t => t.dispatch poller k fd e) >>=
        reported fd).on w = (res, v) := (Act.on_bind_ok (onTable_on there worked)).trans handled
    rcases how with rfl | ⟨c, rfl⟩
    · obtain ⟨res, w', rest, kept, how⟩ := ih tallies'
      exact ⟨res, w', (Act.on_bind_ok first).trans rest, kept, how⟩
    · exact ⟨_, v, Act.on_bind_error first, tallies', .inr ⟨c, rfl⟩⟩

theorem called_tallies (manages : Manages io start)
    (fresh : ∀ x, start.reactors.get? io.reactor = some x →
      ∃ n, Reactor.FdTable.fresh n = .ok x.table) (run : Called io start w) : Tallies io w := by
  induction run with
  | start =>
    refine ⟨manages, fun x found => ?_⟩
    obtain ⟨n, made⟩ := fresh x found
    exact .of_fresh made
  | elsewhere _ manages' table ih =>
    refine ⟨manages', fun x' found' => ?_⟩
    obtain ⟨x, found, _⟩ := ih.manages.held
    rw [table x x' found found']
    exact ih.tallied x found
  | reported _ reports ih => exact dispatch_tallies ih reports
  | call _ q ih =>
    cases q with
    | add fd e given => exact add_tallies ih fd e given
    | delete fd e => exact disarms_tallies ih rfl
    | cancel fd e => exact disarms_tallies ih rfl
    | cancelAll fd => exact disarms_tallies ih rfl

/-- Events are removed: the call answers yes, nothing else changes of what is armed, and so many
registrations less are pending. -/
structure Removed (io : Manager) (w : World) (q : EventCall) (gone : Event)
    (ended : Signal × World) : Prop where
  answer : ended.1 = .done (.flag true)
  table : ∀ x, w.reactors.get? io.reactor = some x →
    ∃ x', ended.2.reactors.get? io.reactor = some x' ∧
      (∀ j, x'.table.mask j =
        if j = q.fd then (x.table.mask q.fd).without gone else x.table.mask j) ∧
      x'.table.pending + gone.count = x.table.pending

/-- Whatever was called before, a call that disarms a single event, or whatever is armed of a
number, removes what is armed if the kernel knows the number. It answers no if nothing of it is
armed, or if the number was closed or reused so that the kernel does not know it any more, or was
told to fail; then nothing has changed, and what was armed stays armed and pending. -/
theorem armed_events_are_removed_if_known (manages : Manages io start)
    (fresh : ∀ x, start.reactors.get? io.reactor = some x →
      ∃ n, Reactor.FdTable.fresh n = .ok x.table) (run : Called io start w)
    (found : w.reactors.get? io.reactor = some x) (q : EventCall) (removes : q.Removes) :
    ((x.table.mask q.fd).contains (q.gone (x.table.mask q.fd)) = true →
      w.kernel.Knows x.epoll q.fd →
        Removed io w q (q.gone (x.table.mask q.fd)) (w.perform (q.act io))) ∧
      ((x.table.mask q.fd).contains (q.gone (x.table.mask q.fd)) = false ∨
          ¬w.kernel.Knows x.epoll q.fd →
        (w.perform (q.act io)).1 = .done (.flag false) ∧
          Atomic io w q (w.perform (q.act io)).2) := by
  obtain ⟨k, t, res, w', added, how, ended, appends, still⟩ :=
    disarms_on (called_tallies manages fresh run) found removes.disarms
  rw [ended]
  have kept : ∀ {k : Kernel.State}, k.epolls = w.kernel.epolls →
      Quiet (w.withTable io.reactor k x.table) w' → Atomic io w q w' := fun epolls quiet =>
    ((Conserved.of_withTable found epolls (Nat.le_refl _)).quiet quiet).atomic q
  cases how with
  | absent unarmed =>
    refine ⟨fun armed => ?_, fun _ => ⟨rfl, kept rfl (still nofun)⟩⟩
    rw [unarmed] at armed
    cases armed
  | refused armed told =>
    rw [Reactor.FdTable.rearm_tell _ _ _ (Reactor.FdTable.isEmpty_of_contains armed)] at told
    obtain ⟨_, epolls, _⟩ := Kernel.State.tell_failed told
    refine ⟨fun _ known => ?_, fun _ => ⟨rfl, kept epolls (still nofun)⟩⟩
    cases (Kernel.State.agreed_iff_knows
      (Reactor.FdTable.isEmpty_of_contains armed) told).mpr known
  | done armed told _ masks counts =>
    rw [Reactor.FdTable.rearm_tell _ _ _ (Reactor.FdTable.isEmpty_of_contains armed)] at told
    have known := (Kernel.State.agreed_iff_knows
      (Reactor.FdTable.isEmpty_of_contains armed) told).mp rfl
    refine ⟨fun _ _ => ⟨rfl, fun y there => ?_⟩, ?_⟩
    · obtain rfl := Option.some.inj (found.symm.trans there)
      obtain ⟨x', found', _⟩ := (appends.manages (withTable_manages
        (called_tallies manages fresh run).manages _ _)).held
      obtain ⟨z, hz, table, _⟩ := appends.reactor _ x' found'
      obtain rfl := Option.some.inj ((withTable_get? found _ _).symm.trans hz)
      refine ⟨x', found', fun j => ?_, ?_⟩
      · rw [table]
        exact masks j
      · rw [table]
        exact counts
    · rintro (unarmed | unknown)
      · rw [unarmed] at armed
        cases armed
      · exact absurd known unknown
  | violated several _ => exact absurd removes several

/-- As long as nobody closes a number of which something is armed, every such number is known, so
that all that is armed can be removed. -/
theorem Watches.knows {s : Sight} (run : Watches io start w) (manages : Manages io start)
    (fresh : ∀ x, start.reactors.get? io.reactor = some x →
      ∃ n, Reactor.FdTable.fresh n = .ok x.table)
    (shows : start.Shows io.reactor s) (sound : s.descriptors.Sound)
    (unwatched : s.set.registered = []) (once : s.set.ready.Nodup)
    (found : w.reactors.get? io.reactor = some x) (calm : w.kernel.faults.get? .epollCtl = none)
    {fd : Int} (armed : (x.table.mask fd).isEmpty = false) : w.kernel.Knows x.epoll fd := by
  obtain ⟨m, s', h⟩ := run.watching (watching_fresh manages fresh shows sound unwatched once)
  obtain ⟨y, there, mask, set, -⟩ := h.shows.reactor
  obtain rfl := Option.some.inj (found.symm.trans there)
  rw [mask] at armed
  obtain ⟨i, f, named, pollable, one⟩ := h.vigilant.set.armed fd armed
  refine ⟨calm, s'.set, i, f, set, h.shows.descriptors ▸ named, pollable, ?_⟩
  rw [Kernel.Epoll.find?_eq, one]
  simp

/-- The watching world after the end of the pipe that is read was armed. -/
def armedWorld : World :=
  (watchingWorld.perform ((EventCall.add 3 .readable (some readerTask)).act watcher)).2

theorem armedWorld_called : Called watcher watchingWorld armedWorld :=
  Called.start.call (.add 3 .readable (some readerTask))

/-- The number of the end is closed. -/
def closedWorld : World :=
  { armedWorld with kernel := armedWorld.kernel.doing (.close 3) }

theorem closedWorld_called : Called watcher watchingWorld closedWorld := by
  have tallies := called_tallies watchingWorld_manages watchingWorld_fresh armedWorld_called
  refine armedWorld_called.elsewhere ⟨tallies.manages.named, tallies.manages.held⟩ ?_
  intro x x' found found'
  obtain rfl := Option.some.inj (found.symm.trans found')
  rfl

theorem armedWorld_knows : armedWorld.kernel.Knows 1 3 :=
  ⟨rfl, _, 2, .pipeReader 1, rfl, rfl, rfl, rfl⟩

theorem closedWorld_forgets : ¬closedWorld.kernel.Knows 1 3 := by
  rintro ⟨-, _, _, _, -, named, -⟩
  cases named

/-- The end of the pipe is disarmed while its number is open. Once the number is closed, nothing
disarms it. -/
theorem pipe_end_is_disarmed_unless_closed :
    (∃ x, armedWorld.reactors.get? watcher.reactor = some x ∧
      Removed watcher armedWorld (.delete 3 .readable) .readable
        (armedWorld.perform ((EventCall.delete 3 .readable).act watcher))) ∧
      (closedWorld.perform ((EventCall.cancelAll 3).act watcher)).1 = .done (.flag false) ∧
      Atomic watcher closedWorld (.cancelAll 3)
        (closedWorld.perform ((EventCall.cancelAll 3).act watcher)).2 :=
  ⟨⟨_, rfl, (armed_events_are_removed_if_known watchingWorld_manages watchingWorld_fresh
      armedWorld_called rfl (.delete 3 .readable) rfl).1 rfl armedWorld_knows⟩,
    (armed_events_are_removed_if_known watchingWorld_manages watchingWorld_fresh
      closedWorld_called rfl (.cancelAll 3) trivial).2 (.inr closedWorld_forgets)⟩

/-- An event of a pipe is armed and its number is closed before the event is to be disarmed. -/
def closedScript : Program :=
  ⟨#[[.perform "io_new" (.reactor (.new "io" ⟨false, .empty, [.threads 1, .useCaller true]⟩ none)),
      .perform "pipe" (.reactor (.pipe 3 4)),
      .perform "on_event" (.reactor (.on "io" 3 .readable (.block 1))),
      .perform "close" (.reactor (.close 3)),
      .perform "pending" (.reactor (.pending "io")),
      .perform "del_event" (.reactor (.delete "io" 3 .readable)),
      .perform "pending" (.reactor (.pending "io"))],
    [.perform "log" (.fiber (.log (.text "r")))]]⟩

def closedAfter (rounds : Nat) : World :=
  (World.start closedScript .frozen .empty .fresh false none "main").runUpTo rounds

/-- What can be seen of the end of the pipe: whether it is armed, and the number of pending events.
-/
def World.pipeEnd (w : World) : Option (Bool × Nat) :=
  (w.reactors.get? firstManager.reactor).map fun x =>
    ((x.table.mask 3).contains .readable, x.table.pending)

/-- Whether an action is answered with no. -/
def Signal.isNo : Signal → Bool
  | .done (.flag b) => !b
  | _ => false

/-- The event is armed and is to be disarmed, but the call answers no, and the event stays armed and
pending. -/
theorem closed_number_stays_armed :
    (closedAfter 13).pipeEnd = some (true, 1) ∧
      (∀ q ∈ [.delete 3 .readable, .cancel 3 .readable, .cancelAll 3],
        ((closedAfter 13).perform (EventCall.act firstManager q)).1.isNo = true ∧
        ((closedAfter 13).perform (q.act firstManager)).2.pipeEnd = some (true, 1)) ∧
      (closedAfter 60).reports.map (fun a => (a.1, a.2.compact)) =
        [("io_new", "\"ok\""), ("pipe", "null"), ("on_event", "\"ok\""), ("close", "0"),
          ("pending", "1"), ("del_event", "false"), ("pending", "1")] := by
  refine ⟨by decide +kernel, fun q mem => ?_, by decide +kernel⟩
  simp only [List.mem_cons, List.not_mem_nil, or_false] at mem
  rcases mem with rfl | rfl | rfl
  all_goals exact ⟨by decide +kernel, by decide +kernel⟩

end Script

end Fibers
