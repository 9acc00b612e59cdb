import Fibers.Proofs.Manager.Ample
import Fibers.Proofs.Reactor.Serving
import Fibers.Proofs.Scheduler.Starting

/-!
What the run loop of a scheduler with a reactor depends on. A `Scene` is a view with the descriptor
table and the timers of the reactor; effects are described by what they do to scenes. The poller may
refuse any call, so that an effect may have one of several ends.
-/

namespace Fibers.Script

/-- What does not change while the scheduler of a reactor runs. -/
structure Station where
  program : Program
  scheduler : SchedulerId
  reactor : ReactorId
  timers : Nat
  epoll : Nat
  config : SchedulerConfig
  settings : ReactorConfig
  root : FiberId

/-- What a run loop with a reactor depends on. -/
structure Scene extends View where
  wait : Option Wait
  table : Reactor.FdTable Handler
  timers : Timers TimerBody
  /-- The handles of the reactor. -/
  held : Nat
  names : Names

/-- The scene after control was transferred. -/
def Scene.followed (c : Scene) (t : FiberTable.Transfer Body) : Scene :=
  { c with toView := c.toView.followed t }

namespace Station

variable (p : Station)

/-- The record of the scheduler. -/
structure IsScheduler (shared : Shared Body) (handles : Nat) (x : SchedulerRecord) : Prop where
  config : x.config = p.config
  shared : x.shared = shared
  hooks : x.hooks = .reactor p.reactor
  root : x.root = some p.root
  owner : x.owner = some mainThread
  workers : x.workers = []
  handles : x.handles = handles

/-- The record of the reactor. -/
structure IsReactor (table : Reactor.FdTable Handler) (held : Nat) (x : ReactorRecord) : Prop where
  config : x.config = p.settings
  epoll : x.epoll = p.epoll
  table : x.table = table
  timers : x.timers = p.timers
  handles : x.handles = held

/-- The only thread, which has not ended. -/
structure IsThread (frames : List Frame) (signal : Signal) (current : Option FiberId)
    (wait : Option Wait) (t : Thread) : Prop where
  frames : t.frames = frames
  signal : t.signal = signal
  current : t.current = current
  scheduler : t.scheduler = some p.scheduler
  wait : t.wait = wait
  ended : t.ended = none

/-- The world is as the scene says. There is one thread, and the system has room. -/
structure Depicts (c : Scene) (w : World) : Prop where
  program : w.program = p.program
  names : w.names = c.names
  aborted : w.aborted = false
  running : w.running = mainThread
  threads : ∃ t, w.threads.entries = [(mainThread, t)] ∧
    p.IsThread c.frames c.signal c.current c.wait t
  scheduler : ∃ x, w.schedulers.get? p.scheduler = some x ∧ p.IsScheduler c.shared c.handles x
  reactor : ∃ x, w.reactors.get? p.reactor = some x ∧ p.IsReactor c.table c.held x
  timers : ∃ x, w.timerSets.get? p.timers = some x ∧ x.timers = c.timers
  fibers : w.fibers = c.fibers
  saved : w.saved = c.saved
  reports : w.reports = c.reports
  ample : w.kernel.Ample p.epoll

variable {p} {c c' u : Scene} {w w' : World} {α β : Type} {a : α} {b : β}

namespace Depicts

theorem quiet (h : p.Depicts c w) (q : Quiet w w') : p.Depicts c w' := by
  obtain ⟨_, _, _, rfl, actions⟩ := q
  refine { h with reports := ?_ }
  rw [World.reports, actions]
  exact h.reports

/-- The system may change as long as it has room, and time may pass. -/
theorem outside (h : p.Depicts c w) {k : Kernel.State} (ample : k.Ample p.epoll) (clock : Instant) :
    p.Depicts c { w with kernel := k, clock := clock } :=
  { h with ample := ample }

theorem inKernel (h : p.Depicts c w) {k : Kernel.State}
    (spares : Kernel.State.Spares p.epoll w.kernel k) : p.Depicts c { w with kernel := k } :=
  { h with ample := h.ample.spared spares }

theorem thread (h : p.Depicts c w) : p.IsThread c.frames c.signal c.current c.wait w.thread := by
  obtain ⟨t, entries, is⟩ := h.threads
  have found : w.threads.get? w.running = some t := by
    rw [h.running, Table.get?, entries]
    rfl
  rw [World.thread, found]
  exact is

theorem currentScheduler (h : p.Depicts c w) : w.currentScheduler = some p.scheduler := by
  obtain ⟨x, found, _⟩ := h.scheduler
  rw [World.currentScheduler, h.thread.scheduler]
  simp only [Table.contains, found, Option.isSome_some, if_true]

/-- The scheduler is alive. -/
theorem alive (h : p.Depicts c w) : w.schedulers.contains p.scheduler = true := by
  obtain ⟨x, found, _⟩ := h.scheduler
  rw [Table.contains, found]
  rfl

/-- The run loop may end if the reactor waits for nothing and there is nothing to run. -/
theorem isStopping (h : p.Depicts c w) :
    w.isStopping p.scheduler =
      (c.table.pending == 0 && !c.timers.hasTimer && c.shared.isDone) := by
  obtain ⟨x, found, is⟩ := h.scheduler
  obtain ⟨y, found', is'⟩ := h.reactor
  obtain ⟨z, found'', same⟩ := h.timers
  simp only [World.isStopping, found, is.hooks, is.shared, World.reactorIsQuiet, found', is'.table,
    is'.timers, found'', same]

end Depicts

/-- An effect leads from a scene to another one, with an answer. -/
def Does (p : Station) (c : Scene) (act : Act α) (a : α) (c' : Scene) : Prop :=
  ∀ w, p.Depicts c w → ∃ w', act.on w = (.ok a, w') ∧ p.Depicts c' w'

/-- An effect in a world ends in one of some ways. -/
def Ends (p : Station) (w : World) (act : Act α) (post : Except Stop α → Scene → Prop) : Prop :=
  ∃ c', p.Depicts c' (act.on w).2 ∧ post (act.on w).1 c'

variable {post mid : Except Stop β → Scene → Prop}

theorem Does.ends {act : Act α} {post : Except Stop α → Scene → Prop} (h : p.Does c act a c')
    (shows : p.Depicts c w) (good : post (.ok a) c') : p.Ends w act post := by
  obtain ⟨w', did, shows'⟩ := h w shows
  refine ⟨c', ?_, ?_⟩ <;> rw [did]
  · exact shows'
  · exact good

theorem Does.ends_bind {x : Act α} {f : α → Act β} (h : p.Does c x a u) (shows : p.Depicts c w)
    (g : ∀ w', p.Depicts u w' → p.Ends w' (f a) post) : p.Ends w (x >>= f) post := by
  obtain ⟨w', did, shows'⟩ := h w shows
  obtain ⟨c', after, good⟩ := g w' shows'
  refine ⟨c', ?_, ?_⟩ <;> rw [Act.on_bind_ok did]
  · exact after
  · exact good

namespace Ends

theorem pure (shows : p.Depicts c w) (good : post (.ok b) c) : p.Ends w (pure b) post :=
  ⟨c, shows, good⟩

theorem raise {x : Panic} (shows : p.Depicts c w) (bad : post (.error (.panic x)) c) :
    p.Ends w (raise x) post := ⟨c, shows, bad⟩

theorem fail {x : Failure} (shows : p.Depicts c w) (bad : post (.error (.failure x)) c) :
    p.Ends w (fail x) post := ⟨c, shows, bad⟩

theorem violate {x : Violation} (shows : p.Depicts c w)
    (bad : post (.error (.panic (.violation x))) c) : p.Ends w (violate x) post := by
  obtain ⟨w', did, quiet⟩ := violate_quiet (α := β) x w
  refine ⟨c, ?_, ?_⟩ <;> rw [did]
  · exact shows.quiet quiet
  · exact bad

theorem bind {x : Act α} {f : α → Act β} {first : Except Stop α → Scene → Prop}
    (h : p.Ends w x first)
    (ok : ∀ a u w', p.Depicts u w' → first (.ok a) u → p.Ends w' (f a) post)
    (error : ∀ e u, first (.error e) u → post (.error e) u) : p.Ends w (x >>= f) post := by
  obtain ⟨u, shows, ended⟩ := h
  rcases did : x.on w with ⟨_ | a, w'⟩ <;> rw [did] at shows ended
  · next e =>
    refine ⟨u, ?_, ?_⟩ <;> rw [Act.on_bind_error did]
    · exact shows
    · exact error e u ended
  · obtain ⟨c', after, good⟩ := ok a u w' shows ended
    refine ⟨c', ?_, ?_⟩ <;> rw [Act.on_bind_ok did]
    · exact after
    · exact good

theorem get {f : World → Act β} (h : p.Ends w (f w) post) : p.Ends w (get >>= f) post := h

theorem mono {act : Act β} (h : p.Ends w act mid) (weaker : ∀ r u, mid r u → post r u) :
    p.Ends w act post := by
  obtain ⟨u, shows, ended⟩ := h
  exact ⟨u, shows, weaker _ u ended⟩

end Ends

namespace Does

theorem pure (a : α) : p.Does c (pure a) a c := fun w h => ⟨w, rfl, h⟩

theorem bind {x : Act α} {f : α → Act β} (h : p.Does c x a u) (g : p.Does u (f a) b c') :
    p.Does c (x >>= f) b c' := by
  intro w shows
  obtain ⟨w₁, first, shows₁⟩ := h w shows
  obtain ⟨w₂, second, shows₂⟩ := g w₁ shows₁
  exact ⟨w₂, (Act.on_bind_ok first).trans second, shows₂⟩

theorem get {f : World → Act α} (h : ∀ w, p.Depicts c w → p.Does c (f w) a c') :
    p.Does c (get >>= f) a c' := fun w shows => h w shows w shows

theorem modify {g : World → World} (h : ∀ w, p.Depicts c w → p.Depicts c' (g w)) :
    p.Does c (modify g) () c' := fun w shows => ⟨g w, rfl, h w shows⟩

theorem quiet {act : Act α} (h : ∀ w, ∃ w', act.on w = (.ok a, w') ∧ Quiet w w') :
    p.Does c act a c := by
  intro w shows
  obtain ⟨w', did, q⟩ := h w
  exact ⟨w', did, shows.quiet q⟩

theorem log (l : Log.Level) (text : String) : p.Does c (log l text) () c :=
  quiet fun w => log_quiet l text w

theorem when {q : Prop} [Decidable q] {act : Act Unit} (h : p.Does c act () c) :
    p.Does c (if q then act else Pure.pure ()) () c := by
  split
  · exact h
  · exact .pure ()

/-- An effect that is not always done, before one that is. -/
theorem when_bind {q : Prop} [Decidable q] {act : Act Unit} {f : Unit → Act α}
    (h : p.Does c act () c) (g : p.Does c (f ()) a c') :
    p.Does c (if q then act >>= f else f ()) a c' := by
  split
  · exact h.bind g
  · exact g

theorem schedulerRecord {f : SchedulerRecord → Act α}
    (h : ∀ x, p.IsScheduler c.shared c.handles x → p.Does c (f x) a c') :
    p.Does c (schedulerRecord p.scheduler >>= f) a c' := by
  intro w shows
  obtain ⟨x, found, is⟩ := shows.scheduler
  rw [Act.on_bind_ok (schedulerRecord_on p.scheduler w), found]
  exact h x is w shows

/-- An effect on the system that takes no room away. -/
theorem kernel {f : Kernel.State → Kernel.State} (h : ∀ k, Kernel.State.Spares p.epoll k (f k)) :
    p.Does c (kernelDo f) () c := modify fun w shows => shows.inKernel (h w.kernel)

end Does

/-- An update of the thread. -/
theorem updateThread_does {f : Thread → Thread} {frames : List Frame} {signal : Signal}
    {current : Option FiberId} {wait : Option Wait}
    (h : ∀ t, p.IsThread c.frames c.signal c.current c.wait t →
      p.IsThread frames signal current wait (f t)) :
    p.Does c (updateThread f) ()
      { c with frames := frames, signal := signal, current := current, wait := wait } := by
  refine Does.modify fun w shows => ?_
  obtain ⟨t, entries, is⟩ := shows.threads
  exact { shows with threads := ⟨f t, by simp [Table.modify, entries, shows.running], h t is⟩ }

theorem push_does (f : Frame) : p.Does c (push f) () { c with frames := f :: c.frames } :=
  updateThread_does fun _ is => { is with frames := congrArg (f :: ·) is.frames }

/-- A change of the record of the scheduler. -/
theorem updateScheduler_does {f : SchedulerRecord → SchedulerRecord} {shared : Shared Body}
    {handles : Nat}
    (h : ∀ x, p.IsScheduler c.shared c.handles x →
      p.IsScheduler shared handles (f x)) :
    p.Does c (updateScheduler p.scheduler f) ()
      { c with shared := shared, handles := handles } := by
  refine Does.modify fun w shows => ?_
  obtain ⟨x, found, is⟩ := shows.scheduler
  refine { shows with scheduler := ⟨f x, ?_, h x is⟩ }
  change (w.schedulers.modify p.scheduler f).get? p.scheduler = _
  rw [Table.get?_modify, if_pos rfl, found]
  rfl

theorem updateShared_does (f : Shared Body → Shared Body) :
    p.Does c (updateShared p.scheduler f) () { c with shared := f c.shared } :=
  updateScheduler_does fun _ is => { is with shared := congrArg f is.shared }

theorem wakePoller_does (failure : String) : p.Does c (wakePoller p.epoll failure) () c := by
  intro w shows
  have woken := shows.inKernel (.of_alike (w.kernel.wake_alike p.epoll))
  rw [wakePoller, Act.on_bind_ok (kernel_on _ w)]
  split
  · exact ⟨_, rfl, woken⟩
  · exact Does.log _ _ _ woken

theorem tickle_does : p.Does c (tickle p.scheduler) () c := by
  refine Does.schedulerRecord fun x is => ?_
  rw [is.hooks]
  refine Does.get fun w shows => ?_
  obtain ⟨y, found, is'⟩ := shows.reactor
  rw [found]
  dsimp only
  rw [is'.epoll]
  exact wakePoller_does _

theorem enqueue_does (entries : List (QueueEntry Body)) :
    p.Does c (enqueue p.scheduler entries) ()
      { c with shared := { c.shared with queue := c.shared.queue ++ entries } } := by
  refine Does.schedulerRecord fun x is => ?_
  rw [is.shared]
  exact (updateShared_does fun _ => (c.shared.push entries).1).bind (.when tickle_does)

theorem settle_does : p.Does c (settle p.scheduler) () { c with shared := c.shared.settle } :=
  updateShared_does _

theorem take_head {fibers : FiberTable Body} {shared : Shared Body} {e : QueueEntry Body}
    {q : List (QueueEntry Body)} {worker : Nat} (queue : shared.queue = e :: q)
    (eligible : TaskQueue.eligible (fun id => fibers.state id == .exec) worker e = true) :
    shared.take (fun id => fibers.state id == .exec) worker =
      ⟨{ shared with queue := q, active := shared.active + 1 }, some e, !q.isEmpty⟩ := by
  simp [Shared.take, TaskQueue.takeNext, TaskQueue.scan, queue, eligible]

theorem take_nothing {running : FiberId → Bool} {shared : Shared Body} {worker : Nat}
    (queue : shared.queue = []) : shared.take running worker = ⟨shared, none, false⟩ := by
  obtain ⟨_, _, _, _, _, _⟩ := shared
  obtain rfl := queue
  rfl

/-- The oldest entry is taken, if the worker may have it. -/
theorem takeNext_does {e : QueueEntry Body} {q : List (QueueEntry Body)} {worker : Nat}
    (queue : c.shared.queue = e :: q)
    (eligible : TaskQueue.eligible (fun id => c.fibers.state id == .exec) worker e = true) :
    p.Does c (takeNext p.scheduler worker) (some e)
      { c with shared := { c.shared with queue := q, active := c.shared.active + 1 } } := by
  refine Does.get fun w shows => Does.schedulerRecord fun x is => ?_
  rw [shows.fibers, is.shared, take_head queue eligible]
  exact (updateShared_does _).bind (.when_bind tickle_does (.pure _))

theorem takeNext_none_does {worker : Nat} (queue : c.shared.queue = []) :
    p.Does c (takeNext p.scheduler worker) none c := by
  refine Does.get fun w shows => Does.schedulerRecord fun x is => ?_
  rw [is.shared, take_nothing queue]
  exact (updateShared_does _).bind (.when_bind tickle_does (.pure _))

theorem retain_fiber_does (id : FiberId) :
    p.Does c (retain (.fiber id)) () { c with fibers := c.fibers.retain id } :=
  Does.modify fun _ shows =>
    { shows with fibers := congrArg (FiberTable.retain · id) shows.fibers }

theorem retain_scheduler_does :
    p.Does c (retain (.scheduler p.scheduler)) () { c with handles := c.handles + 1 } :=
  updateScheduler_does fun _ is => { is with handles := congrArg (· + 1) is.handles }

/-- A change of the record of the reactor. -/
theorem updateReactor_does {f : ReactorRecord → ReactorRecord} {table : Reactor.FdTable Handler}
    {held : Nat}
    (h : ∀ x, p.IsReactor c.table c.held x → p.IsReactor table held (f x)) :
    p.Does c (modify fun w => { w with reactors := w.reactors.modify p.reactor f }) ()
      { c with table := table, held := held } := by
  refine Does.modify fun w shows => ?_
  obtain ⟨x, found, is⟩ := shows.reactor
  refine { shows with reactor := ⟨f x, ?_, h x is⟩ }
  change (w.reactors.modify p.reactor f).get? p.reactor = _
  rw [Table.get?_modify, if_pos rfl, found]
  rfl

theorem retain_reactor_does :
    p.Does c (retain (.reactor p.reactor)) () { c with held := c.held + 1 } :=
  updateReactor_does fun _ is => { is with handles := congrArg (· + 1) is.handles }

end Station

end Fibers.Script
