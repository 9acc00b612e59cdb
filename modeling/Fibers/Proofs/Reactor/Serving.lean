import Fibers.Proofs.Reactor.Operations
import Fibers.Proofs.Reactor.Requests

/-!
Each request is served as its reply says, on a reactor whose table holds the handlers of the
registry. A request first works on the table, as the operations of the table do, and then finishes:
it lets go of handles, queues tasks or writes to the log, none of which touches the table again.
-/

namespace Fibers.Script

open Reactor (Registry)

section Serving

variable {io : Manager} {w : World} {m : Registry Handler} {x : ReactorRecord}

theorem reactorNamed_on (manages : Manages io w) :
    (reactorNamed io.name).on w = (.ok (io.scheduler, io.reactor), w) := by
  rw [reactorNamed, Act.on_bind_get, named, manages.named]
  rfl

/-- The world in which the table of a reactor was worked on. -/
def World.withTable (w : World) (r : ReactorId) (kernel : Kernel.State)
    (table : Reactor.FdTable Handler) : World :=
  { w with
    kernel := kernel
    reactors := w.reactors.modify r fun x => { x with table := table } }

theorem onTable_on {α : Type} {r : ReactorId} (found : w.reactors.get? r = some x)
    {f : Reactor.Poller Kernel.State → Kernel.State → Reactor.FdTable Handler →
      Kernel.State × Reactor.FdTable Handler × α}
    {k : Kernel.State} {t : Reactor.FdTable Handler} {a : α}
    (res : f (Reactor.epollPoller x.epoll) w.kernel x.table = (k, t, a)) :
    (onTable r f).on w = (.ok a, w.withTable r k t) := by
  rw [onTable, Act.on_bind_get, found, Option.getD_some]
  dsimp only
  rw [res, Act.on_bind_modify]
  rfl

theorem withTable_get? {r : ReactorId} (found : w.reactors.get? r = some x) (k : Kernel.State)
    (t : Reactor.FdTable Handler) :
    (w.withTable r k t).reactors.get? r = some { x with table := t } := by
  change (w.reactors.modify r _).get? r = _
  rw [Table.get?_modify, if_pos rfl, found]
  rfl

theorem withTable_held {r : ReactorId} (h : w.HeldBesides 0 r) (k : Kernel.State)
    (t : Reactor.FdTable Handler) : (w.withTable r k t).HeldBesides 0 r := by
  obtain ⟨x, found, lt⟩ := h
  exact ⟨_, withTable_get? found k t, lt⟩

theorem withTable_manages (manages : Manages io w) (k : Kernel.State)
    (t : Reactor.FdTable Handler) : Manages io (w.withTable io.reactor k t) :=
  ⟨manages.named, withTable_held manages.held k t⟩

/-- What was answered by the poller. -/
theorem tell_of_answer {r : ReactorId} (found : w.reactors.get? r = some x) {fd : Int}
    {before after : Event} {told : Answer} (answer : w.pollerAnswer r fd before after = told) :
    ∃ k, (Reactor.epollPoller x.epoll).tell w.kernel fd before after = (k, told) := by
  rw [World.pollerAnswer, found, Option.getD_some] at answer
  exact ⟨_, Prod.ext rfl answer⟩

theorem Appends.manages {w' : World} {added : Added} (h : Appends w w' added)
    (manages : Manages io w) : Manages io w' :=
  ⟨h.names ▸ manages.named, h.held _ _ manages.held⟩

theorem Leads.of {v w' : World} {fired : List Handler} (manages : Manages io v)
    (schedulers : v.schedulers = w.schedulers) (found : v.reactors.get? io.reactor = some x)
    (holds : x.table.Holds m) (appends : Appends v w' (.fired fired)) : Leads io w w' m fired where
  manages := appends.manages manages
  table y hy := by
    obtain ⟨z, hz, table, _⟩ := appends.reactor _ y hy
    obtain rfl := Option.some.inj (found.symm.trans hz)
    rw [table]
    exact holds
  queues s x' hx' := by
    rw [← schedulers]
    exact appends.scheduler s x' hx'

theorem Added.fired_append (hs hs' : List Handler) (s : SchedulerId) :
    Added.fired (hs ++ hs') s = Added.fired hs s ++ Added.fired hs' s := by
  simp only [Added.fired, List.filter_append, List.map_append]

theorem Leads.trans {u v : World} {m' : Registry Handler} {hs hs' : List Handler}
    (h : Leads io u v m hs) (g : Leads io v w m' hs') : Leads io u w m' (hs ++ hs') where
  manages := g.manages
  table := g.table
  queues s x' hx' := by
    obtain ⟨y, hy, queue⟩ := g.queues s x' hx'
    obtain ⟨x, hx, queue'⟩ := h.queues s y hy
    exact ⟨x, hx, by rw [queue, queue', Added.fired_append, List.append_assoc]⟩

/-- A request that led to a world `v` with the table of its reply, and went on from there. -/
theorem Served.of {act : Act Signal} {reply : Reply} {v w' : World} (manages : Manages io v)
    (schedulers : v.schedulers = w.schedulers) (found : v.reactors.get? io.reactor = some x)
    (holds : x.table.Holds reply.registry) (performed : w.perform act = (reply.answer, w'))
    (appends : Appends v w' (.fired reply.fired))
    (dropped : reply.dropped ≠ [] →
      ∃ v, v.fibers = w.fibers ∧ v.schedulers = w.schedulers ∧
        (release reply.dropped).on v = (.ok (), w')) : Served io w act reply where
  answer := by rw [performed]
  leads := by
    rw [performed]
    exact .of manages schedulers found holds appends
  dropped some := by
    rw [performed]
    exact dropped some

/-- The poller refused: the failure is logged, and nothing changes. -/
theorem disarmed_refused (what : String) (finish : List Handler → Act Unit) (e : OsError)
    (w : World) :
    ∃ w', (disarmed what finish (.refused e)).on w = (.ok (.done (.flag false)), w') ∧
      Appends w w' .none := by
  obtain ⟨w', logged, quiet⟩ := log_quiet .error s!"{what}: {e.render}" w
  exact ⟨w', Act.on_bind_ok logged, quiet.appends⟩

theorem dropHandlers_on (hs : List Handler) (w : World) :
    ∃ w', (dropHandlers hs).on w = (.ok (), w') ∧ Appends w w' .none := by
  refine release_on (fun r mem => ?_) w
  obtain ⟨h, _, mem⟩ := List.mem_flatMap.mp mem
  exact handler_free h r mem

/-- A request that disarms a single event and then finishes with its handler, in a way of its own.
-/
theorem disarm_served (manages : Manages io w) (found : w.reactors.get? io.reactor = some x)
    (holds : x.table.Holds m) {fd : Int} {e : Event} (single : e.isSingle = true) {act : Act Signal}
    (what : String) (finish : List Handler → Act Unit) (reply : Answer → Reply)
    (fired : Handler → List Handler) (dropped : Handler → List Handle)
    (runs : ∀ {k t res}, x.table.delete (Reactor.epollPoller x.epoll) w.kernel fd e = (k, t, res) →
      act.on w = (disarmed what finish res).on (w.withTable io.reactor k t))
    (absent : m.get? (fd, e) = none → ∀ told, reply told = ⟨m, .done (.flag false), [], []⟩)
    (refused : ∀ cause, reply (.error cause) = ⟨m, .done (.flag false), [], []⟩)
    (done : ∀ h, m.get? (fd, e) = some h →
      reply (.ok ()) = ⟨m.erase (fd, e), .done (.flag true), fired h, dropped h⟩)
    (finishes : ∀ h v, ∃ w', (finish [h]).on v = (.ok (), w') ∧ Appends v w' (.fired (fired h)) ∧
      (dropped h ≠ [] → (release (dropped h)).on v = (.ok (), w'))) :
    Served io w act
      (reply (w.pollerAnswer io.reactor fd (m.armed fd) ((m.armed fd).without e))) := by
  have manages' := fun k t => withTable_manages manages k t
  cases entry : m.get? (fd, e) with
  | none =>
    rw [absent entry]
    exact .of (manages' _ _) rfl (withTable_get? found _ _) holds
      (perform_of_ok (runs (holds.delete_absent single entry))) (.refl _) fun h => absurd rfl h
  | some h =>
    cases answer : w.pollerAnswer io.reactor fd (m.armed fd) ((m.armed fd).without e) with
    | error cause =>
      obtain ⟨k, told⟩ := tell_of_answer found answer
      obtain ⟨w', logged, appends⟩ :=
        disarmed_refused what finish cause (w.withTable io.reactor k x.table)
      rw [refused]
      exact .of (manages' _ _) rfl (withTable_get? found _ _) holds
        (perform_of_ok ((runs (holds.delete_refused single entry told)).trans logged)) appends
        fun h => absurd rfl h
    | ok _ =>
      obtain ⟨k, told⟩ := tell_of_answer found answer
      obtain ⟨t', res, holds'⟩ := holds.delete_done single entry told
      obtain ⟨w', finished, appends, released⟩ := finishes h (w.withTable io.reactor k t')
      rw [done h entry]
      exact .of (manages' _ _) rfl (withTable_get? found _ _) holds'
        (perform_of_ok ((runs res).trans (Act.on_bind_ok finished))) appends
        fun some => ⟨w.withTable io.reactor k t', rfl, rfl, released some⟩

theorem delete_served (manages : Manages io w) (found : w.reactors.get? io.reactor = some x)
    (holds : x.table.Holds m) (fd : Int) {e : Event} (single : e.isSingle = true) :
    Served io w ((Request.delete fd e).act io) (w.replyTo io m (.delete fd e)) := by
  refine disarm_served manages found holds single s!"del_event fd {fd} {e.render}" dropHandlers
    (Registry.delete m fd e) (fun _ => []) Handler.handles (fun res => ?_) (fun entry told => ?_)
    (fun cause => ?_) (fun h entry => ?_) fun h v => ?_
  · exact (Act.on_bind_ok (reactorNamed_on manages)).trans (Act.on_bind_ok (onTable_on found res))
  · simp only [Registry.delete, entry]
  · unfold Registry.delete
    split <;> simp_all
  · simp only [Registry.delete, entry]
  · obtain ⟨w', dropped, appends⟩ := dropHandlers_on [h] v
    have handles : [h].flatMap Handler.handles = h.handles := List.flatMap_singleton ..
    exact ⟨w', dropped, appends, fun _ => handles ▸ dropped⟩

theorem cancel_served (manages : Manages io w) (found : w.reactors.get? io.reactor = some x)
    (holds : x.table.Holds m) (fd : Int) {e : Event} (single : e.isSingle = true) :
    Served io w ((Request.cancel fd e).act io) (w.replyTo io m (.cancel fd e)) := by
  refine disarm_served manages found holds single s!"cancel_event fd {fd} {e.render}" fireAll
    (Registry.cancel m fd e) (fun h => [h]) (fun _ => []) (fun res => ?_) (fun entry told => ?_)
    (fun cause => ?_) (fun h entry => ?_) fun h v => ?_
  · rw [← holds.cancel_eq_delete single] at res
    exact (Act.on_bind_ok (reactorNamed_on manages)).trans (Act.on_bind_ok (onTable_on found res))
  · simp only [Registry.cancel, entry]
  · unfold Registry.cancel
    split <;> simp_all
  · simp only [Registry.cancel, entry]
  · obtain ⟨w', queued, appends⟩ := fireAll_on [h] v
    exact ⟨w', queued, appends, fun some => absurd rfl some⟩

theorem cancelAll_served (manages : Manages io w) (found : w.reactors.get? io.reactor = some x)
    (holds : x.table.Holds m) (fd : Int) :
    Served io w ((Request.cancelAll fd).act io) (w.replyTo io m (.cancelAll fd)) := by
  have runs : ∀ {k t res},
      x.table.cancelAll (Reactor.epollPoller x.epoll) w.kernel fd = (k, t, res) →
      ((Request.cancelAll fd).act io).on w =
        (disarmed s!"cancel_all fd {fd}" fireAll res).on (w.withTable io.reactor k t) := fun res =>
    (Act.on_bind_ok (reactorNamed_on manages)).trans (Act.on_bind_ok (onTable_on found res))
  have manages' := fun k t => withTable_manages manages k t
  change Served io w _ (Registry.cancelAll m fd (w.pollerAnswer io.reactor fd _ _))
  cases armed : (m.armed fd).isEmpty with
  | true =>
    have reply : ∀ told, Registry.cancelAll m fd told = ⟨m, .done (.flag false), [], []⟩ := by
      intro told
      simp only [Registry.cancelAll, armed]
    rw [reply]
    exact .of (manages' _ _) rfl (withTable_get? found _ _) holds
      (perform_of_ok (runs (holds.cancelAll_absent armed))) (.refl _) fun h => absurd rfl h
  | false =>
    cases answer : w.pollerAnswer io.reactor fd (m.armed fd) .none with
    | error cause =>
      obtain ⟨k, told⟩ := tell_of_answer found answer
      obtain ⟨w', logged, appends⟩ := disarmed_refused s!"cancel_all fd {fd}" fireAll cause
        (w.withTable io.reactor k x.table)
      have reply : Registry.cancelAll m fd (.error cause) = ⟨m, .done (.flag false), [], []⟩ := by
        simp only [Registry.cancelAll, armed]
      rw [reply]
      exact .of (manages' _ _) rfl (withTable_get? found _ _) holds
        (perform_of_ok ((runs (holds.cancelAll_refused armed told)).trans logged)) appends
        fun h => absurd rfl h
    | ok _ =>
      obtain ⟨k, told⟩ := tell_of_answer found answer
      obtain ⟨t', res, holds'⟩ := holds.cancelAll_done armed told
      obtain ⟨w', queued, appends⟩ := fireAll_on (m.fire fd [.readable, .writable]).2
        (w.withTable io.reactor k t')
      have reply : Registry.cancelAll m fd (.ok ()) =
          ⟨(m.fire fd [.readable, .writable]).1, .done (.flag true),
            (m.fire fd [.readable, .writable]).2, []⟩ := by
        simp only [Registry.cancelAll, armed]
      rw [reply]
      exact .of (manages' _ _) rfl (withTable_get? found _ _) holds'
        (perform_of_ok ((runs res).trans (Act.on_bind_ok queued))) appends fun h => absurd rfl h

theorem violateReleasing_on {α : Type} (v : Violation) {hs : List Handle}
    (free : ∀ r, .reactor r ∉ hs) (w : World) :
    ∃ u w', Quiet w u ∧ (release hs).on u = (.ok (), w') ∧
      (violateReleasing v hs : Act α).on w = (.error (.panic (.violation v)), w') ∧
      Appends w w' .none := by
  obtain ⟨u, logged, quiet⟩ := log_quiet .error (announcement v) w
  obtain ⟨w', released, appends⟩ := release_on free u
  refine ⟨u, w', quiet, released, ?_, quiet.appends.trans_none appends⟩
  rw [violateReleasing, logError, Act.on_bind_ok logged, Act.on_bind_ok released, Act.on_raise]

/-- Finishes an attempt to arm an event. -/
def armed (fd : Int) (task : Task Body) (target : SchedulerId) : Reactor.FdTable.Armed → Act Signal
  | .done => do
    retain (.scheduler target)
    answer .ok
  | .refused op interest e => do
    logError s!"epoll_ctl({op.render}) fd {fd} {interest.render}: {e.render}"
    release (taskHandles task)
    fail (.fault (.register fd op e))
  | .violated v => violateReleasing v (taskHandles task)

theorem reserve_error {t : Reactor.FdTable Handler} {fd : Int} {fault : SchedFault}
    (room : ∀ n, t.reserve fd ≠ .error (.tableGrowth n)) (h : t.reserve fd = .error fault) :
    fault = .invalidFd fd ∧ fd < 0 := by
  unfold Reactor.FdTable.reserve at h room
  split at h
  · next negative => exact ⟨(Except.error.inj h).symm, negative⟩
  · next positive =>
    rw [if_neg positive] at room
    split at h
    · cases h
    · next outside =>
      rw [if_neg outside] at room
      dsimp only at h room
      split at h
      · cases h
      · next large =>
        rw [if_neg large] at room
        exact absurd rfl (room _)

theorem reactorRecord_on {r : ReactorId} (found : w.reactors.get? r = some x) :
    (reactorRecord r).on w = (.ok x, w) := by
  rw [reactorRecord, Act.on_bind_get, found]
  rfl

theorem addEvent_on {r : ReactorId} (found : w.reactors.get? r = some x) (s : SchedulerId)
    {fd : Int} {e : Event} (single : e.isSingle = true) {t : Reactor.FdTable Handler}
    {grown : Option Nat} (reserved : x.table.reserve fd = .ok (t, grown)) (task : Task Body) :
    ∃ v, Quiet (w.withTable r w.kernel t) v ∧
      (addEvent s r fd e (some task)).on w =
        (onTable r (fun poller k t => t.arm poller k fd e ⟨w.currentScheduler.getD s, task⟩) >>=
          armed fd task (w.currentScheduler.getD s)).on v := by
  unfold addEvent
  simp only [single, Bool.not_true, if_false, Bool.false_eq_true]
  rw [Act.on_bind_ok (reactorRecord_on found), reserved]
  dsimp only
  have current {v : World} (quiet : Quiet (w.withTable r w.kernel t) v) :
      currentScheduler.on v = (.ok w.currentScheduler, v) := by
    obtain ⟨_, _, _, rfl, _⟩ := quiet
    rfl
  rw [Act.on_bind_modify]
  cases grown with
  | none =>
    refine ⟨_, .refl _, ?_⟩
    exact (Act.on_bind_ok rfl).trans (Act.on_bind_ok (current (.refl _)))
  | some size =>
    obtain ⟨v, logged, quiet⟩ := log_quiet .debug
      s!"fd table grown to {size} entries for fd {fd}" (w.withTable r w.kernel t)
    refine ⟨v, quiet, ?_⟩
    exact (Act.on_bind_ok logged).trans
      ((Act.on_bind_ok rfl).trans (Act.on_bind_ok (current quiet)))

theorem retain_scheduler_on (s : SchedulerId) (w : World) :
    ∃ w', (retain (.scheduler s)).on w = (.ok (), w') ∧ Appends w w' .none :=
  ⟨_, rfl, .modify_same s w (fun _ => rfl) fun _ _ => Nat.le_refl _⟩

theorem pollerAnswer_congr {u v : World} {r : ReactorId} {y : ReactorRecord}
    (hx : u.reactors.get? r = some x) (hy : v.reactors.get? r = some y) (epoll : y.epoll = x.epoll)
    (kernel : v.kernel = u.kernel) : v.pollerAnswer r = u.pollerAnswer r := by
  unfold World.pollerAnswer
  rw [hx, hy, Option.getD_some, Option.getD_some, epoll, kernel]

theorem armed_refused_on (fd : Int) (task : Task Body) (target : SchedulerId) (op : RegisterOp)
    (interest : Event) (cause : OsError) (w : World) :
    ∃ u w', Quiet w u ∧ (release (taskHandles task)).on u = (.ok (), w') ∧
      (armed fd task target (.refused op interest cause)).on w =
        (.error (.failure (.fault (.register fd op cause))), w') ∧
      Appends w w' .none := by
  obtain ⟨u, logged, quiet⟩ := log_quiet .error
    s!"epoll_ctl({op.render}) fd {fd} {interest.render}: {cause.render}" w
  obtain ⟨w', released, appends⟩ := release_on (taskHandles_free task) u
  refine ⟨u, w', quiet, released, ?_, quiet.appends.trans_none appends⟩
  exact (Act.on_bind_ok logged).trans (Act.on_bind_ok released)

/-- Arming a single event of a number that the table has room for. -/
theorem arm_served {act : Act Signal} {v : World} {fd : Int} {e : Event} {task : Task Body}
    {target : SchedulerId} (manages : Manages io v) (fibers : v.fibers = w.fibers)
    (schedulers : v.schedulers = w.schedulers) (found : v.reactors.get? io.reactor = some x)
    (holds : x.table.Holds m) (inside : 0 ≤ fd ∧ fd < x.table.size) (single : e.isSingle = true)
    (runs : ∀ {k t res},
      x.table.arm (Reactor.epollPoller x.epoll) v.kernel fd e ⟨target, task⟩ = (k, t, res) →
        act.on w = (armed fd task target res).on (v.withTable io.reactor k t)) :
    Served io w act (Registry.add m target fd e task
      (v.pollerAnswer io.reactor fd (m.armed fd) ((m.armed fd).union e))) := by
  have free := taskHandles_free task
  have manages' := fun k t => withTable_manages manages k t
  have positive : ¬fd < 0 := Int.not_lt.mpr inside.1
  have reply : ∀ told, Registry.add m target fd e task told =
      if m.contains (fd, e) then
        ⟨m, .raised (.violation (.alreadyWaiting fd e)), [], taskHandles task⟩
      else Registry.enter m target fd e task told := by
    intro told
    have one : ¬(!e.isSingle) = true := by rw [single]; decide
    exact (if_neg one).trans (if_neg positive)
  rw [reply]
  cases occupied : m.contains (fd, e) with
  | true =>
    obtain ⟨u, w', quiet, released, violated, appends⟩ :=
      violateReleasing_on (α := Signal) (.alreadyWaiting fd e) free
        (v.withTable io.reactor v.kernel x.table)
    have performed := (runs (holds.arm_occupied single occupied _)).trans violated
    exact .of (manages' _ _) schedulers (withTable_get? found _ _) holds
      (perform_of_panic performed) appends fun _ =>
        ⟨u, quiet.fibers.trans fibers, quiet.schedulers.trans schedulers, released⟩
  | false =>
    have asked : x.table.arm (Reactor.epollPoller x.epoll) v.kernel fd e ⟨target, task⟩ = _ :=
      holds.arm_eq single occupied ⟨target, task⟩
    cases answer : v.pollerAnswer io.reactor fd (m.armed fd) ((m.armed fd).union e) with
    | error cause =>
      obtain ⟨k, told⟩ := tell_of_answer found answer
      rw [told] at asked
      obtain ⟨u, w', quiet, released, refused, appends⟩ := armed_refused_on fd task target
        (if (m.armed fd).isEmpty then .add else .modify) ((m.armed fd).union e) cause
        (v.withTable io.reactor k x.table)
      exact .of (manages' _ _) schedulers (withTable_get? found _ _) holds
        (perform_of_failure ((runs asked).trans refused)) appends fun _ =>
          ⟨u, quiet.fibers.trans fibers, quiet.schedulers.trans schedulers, released⟩
    | ok _ =>
      obtain ⟨k, told⟩ := tell_of_answer found answer
      rw [told] at asked
      obtain ⟨w', retained, appends⟩ := retain_scheduler_on target (v.withTable io.reactor k _)
      exact .of (manages' _ _) schedulers (withTable_get? found _ _)
        (holds.put single inside occupied ⟨target, task⟩)
        (perform_of_ok ((runs asked).trans (Act.on_bind_ok retained))) appends
        fun some => absurd rfl some

theorem add_served (manages : Manages io w) (found : w.reactors.get? io.reactor = some x)
    (holds : x.table.Holds m) (fd : Int) (e : Event) (task : Task Body)
    (allowed : (Request.add fd e task).Allowed io w) :
    Served io w ((Request.add fd e task).act io) (w.replyTo io m (.add fd e task)) := by
  change Served io w (addEvent io.scheduler io.reactor fd e (some task))
    (Registry.add m (w.currentScheduler.getD io.scheduler) fd e task
      (w.pollerAnswer io.reactor fd (m.armed fd) ((m.armed fd).union e)))
  have free := taskHandles_free task
  have manages' := fun k t => withTable_manages manages k t
  cases single : e.isSingle with
  | false =>
    obtain ⟨u, w', quiet, released, violated, appends⟩ :=
      violateReleasing_on (α := PUnit) (.eventNotSingle e) free w
    have run : (addEvent io.scheduler io.reactor fd e (some task)).on w =
        (.error (.panic (.violation (.eventNotSingle e))), w') := by
      unfold addEvent
      simp only [single, Bool.not_false, if_true]
      exact Act.on_bind_error violated
    have reply : ∀ target told, Registry.add m target fd e task told =
        ⟨m, .raised (.violation (.eventNotSingle e)), [], taskHandles task⟩ := by
      intro target told
      simp only [Registry.add, single, Bool.not_false, if_true]
    rw [reply]
    exact .of manages rfl found holds (perform_of_panic run) appends fun _ =>
      ⟨u, quiet.fibers, quiet.schedulers, released⟩
  | true =>
    cases reserved : x.table.reserve fd with
    | error fault =>
      obtain ⟨rfl, negative⟩ := reserve_error (allowed x found) reserved
      obtain ⟨w', released, appends⟩ := release_on free w
      have run : (addEvent io.scheduler io.reactor fd e (some task)).on w =
          (.error (.failure (.fault (.invalidFd fd))), w') := by
        unfold addEvent
        simp only [single, Bool.not_true, if_false, Bool.false_eq_true]
        rw [Act.on_bind_ok (reactorRecord_on found), reserved]
        exact Act.on_bind_ok released
      have reply : ∀ target told, Registry.add m target fd e task told =
          ⟨m, .failed (.fault (.invalidFd fd)), [], taskHandles task⟩ := by
        intro target told
        simp only [Registry.add, single, Bool.not_true, if_false, Bool.false_eq_true, negative,
          if_true]
      rw [reply]
      exact .of manages rfl found holds (perform_of_failure run) appends fun _ =>
        ⟨w, rfl, rfl, released⟩
    | ok res =>
      obtain ⟨t, grown⟩ := res
      obtain ⟨holds', inside⟩ := holds.reserve reserved
      obtain ⟨v, quiet, run⟩ := addEvent_on found io.scheduler single reserved task
      have found' := quiet.reactors ▸ withTable_get? found w.kernel t
      rw [← pollerAnswer_congr found found' rfl quiet.kernel]
      exact arm_served (quiet.appends.manages (manages' _ _)) quiet.fibers quiet.schedulers found'
        holds' inside single fun res => run.trans (Act.on_bind_ok (onTable_on found' res))

/-- Finishes a report of the poller. -/
def reported (fd : Int) : Reactor.FdTable.Dispatched Handler → Act Unit
  | .ignored => pure ()
  | .refused left e => logError s!"re-arming fd {fd} with {left.render}: {e.render}"
  | .violated v => violate v
  | .fired hs => fireAll hs

theorem dispatch_cons (r : ReactorId) (fd : Int) (e : Event) (found : List (Int × Event)) :
    dispatch r ((fd, e) :: found) =
      ((onTable r fun poller k t => t.dispatch poller k fd e) >>= reported fd) >>= fun _ =>
        dispatch r found := rfl

/-- The first record of a report, where it goes well. -/
theorem dispatch_on {r : ReactorId} (found : w.reactors.get? r = some x) {fd : Int} {e : Event}
    {k : Kernel.State} {t : Reactor.FdTable Handler} {d : Reactor.FdTable.Dispatched Handler}
    (res : x.table.dispatch (Reactor.epollPoller x.epoll) w.kernel fd e = (k, t, d)) {w' : World}
    (done : (reported fd d).on (w.withTable r k t) = (.ok (), w')) (rest : List (Int × Event)) :
    (dispatch r ((fd, e) :: rest)).on w = (dispatch r rest).on w' := by
  rw [dispatch_cons]
  exact Act.on_bind_ok ((Act.on_bind_ok (onTable_on found res)).trans done)

theorem fire_nil_of_isEmpty (fd : Int) {e : Event} (empty : e.isEmpty = true) :
    Registry.fire m fd e.members = (m, []) := by
  obtain ⟨_ | _, _ | _⟩ := e
  · rfl
  all_goals cases empty

/-- A record of a report is handled as the registry handles it. -/
theorem record_leads (manages : Manages io w) (found : w.reactors.get? io.reactor = some x)
    (holds : x.table.Holds m) (fd : Int) (e : Event) {told : Answer}
    (answer : w.pollerAnswer io.reactor fd (m.armed fd)
      ((m.armed fd).without (e.inter (m.armed fd))) = told) :
    ∃ w',
      (∀ rest, (dispatch io.reactor ((fd, e) :: rest)).on w = (dispatch io.reactor rest).on w') ∧
      Leads io w w' (Registry.report m fd e told).1 (Registry.report m fd e told).2 := by
  have manages' := fun k t => withTable_manages manages k t
  cases fires : (e.inter (m.armed fd)).isEmpty with
  | true =>
    have report : Registry.report m fd e told = (m, []) := by
      cases told with
      | error _ => rfl
      | ok _ => exact fire_nil_of_isEmpty fd fires
    rw [report]
    exact ⟨_, dispatch_on found (holds.dispatch_ignored fires) rfl,
      .of (manages' _ _) rfl (withTable_get? found _ _) holds (.refl _)⟩
  | false =>
    obtain ⟨k, asked⟩ := tell_of_answer found answer
    cases told with
    | error cause =>
      obtain ⟨w', logged, quiet⟩ := log_quiet .error
        (s!"re-arming fd {fd} with {((m.armed fd).without (e.inter (m.armed fd))).render}: " ++
          cause.render)
        (w.withTable io.reactor k x.table)
      exact ⟨w', dispatch_on found (holds.dispatch_refused fires asked) logged,
        .of (manages' _ _) rfl (withTable_get? found _ _) holds quiet.appends⟩
    | ok _ =>
      obtain ⟨t', res, holds'⟩ := holds.dispatch_fired fires asked
      obtain ⟨w', queued, appends⟩ := fireAll_on
        (m.fire fd (e.inter (m.armed fd)).members).2 (w.withTable io.reactor k t')
      exact ⟨w', dispatch_on found res queued,
        .of (manages' _ _) rfl (withTable_get? found _ _) holds' appends⟩

/-- A whole report, record by record. -/
theorem report_leads (manages : Manages io w)
    (holds : ∀ x, w.reactors.get? io.reactor = some x → x.table.Holds m)
    (found : List (Int × Event)) :
    ∃ w', (dispatch io.reactor found).on w = (.ok (), w') ∧
      Leads io w w' (Registry.reports m found (w.reportAnswers io.reactor m found)).1
        (Registry.reports m found (w.reportAnswers io.reactor m found)).2 := by
  induction found generalizing w m with
  | nil => exact ⟨w, rfl, manages, holds, fun _ x h => ⟨x, h, (List.append_nil _).symm⟩⟩
  | cons record found ih =>
    obtain ⟨fd, e⟩ := record
    obtain ⟨x, some, _⟩ := id manages.held
    obtain ⟨v, first, leads⟩ := record_leads manages some (holds x some) fd e rfl
    obtain ⟨w', rest, leads'⟩ := ih leads.manages leads.table
    refine ⟨w', (first found).trans rest, ?_⟩
    have next : ((dispatch io.reactor [(fd, e)]).on w).2 = v := congrArg Prod.snd (first [])
    rw [World.reportAnswers, next]
    exact leads.trans leads'

end Serving

end Fibers.Script
