import Fibers.Proofs.Gentle
import Fibers.Proofs.Manager.Scene

/-!
What the effects of a run loop with a reactor do to scenes: switching between stacks, letting go of
handles, working on the descriptor table and the timers, and waiting. A round of the only thread
runs its innermost frame, or looks whether its wait is over.
-/

namespace Fibers.Script

/-- The scene after a handle of a fiber was let go of. -/
def Scene.freed (c : Scene) (id : FiberId) : Scene :=
  { c with
    fibers := (c.toView.released id).fibers
    saved := (c.toView.released id).saved }

/-- The scene after handlers queued their tasks and let go of the scheduler. -/
def Scene.fired (c : Scene) (hs : List Handler) : Scene :=
  { c with
    shared := { c.shared with queue := c.shared.queue ++ hs.map fun h => ⟨h.task, none⟩ }
    handles := c.handles - hs.length }

/-- The scene with one fiber more. -/
def Scene.withFiber (c : Scene) (body : Body) (stack : Nat) (inScheduler : Bool) : Scene :=
  { c with toView := c.toView.withFiber body stack inScheduler }

namespace Station

variable {p : Station} {c c' u : Scene} {w w' : World} {α β : Type} {a : α} {b : β} {id : FiberId}

theorem follow_does (t : FiberTable.Transfer Body) :
    p.Does c (follow t) (toldSignal t.told) (c.followed t) := by
  intro w shows
  refine ⟨_, follow_on t w, ?_⟩
  obtain ⟨x, entries, is⟩ := shows.threads
  have frames : w.thread.frames = c.frames := shows.thread.frames
  exact
    { shows with
      fibers := rfl
      saved := by
        change (w.saved.put t.source w.thread.frames).erase t.target = _
        rw [shows.saved, frames]
        rfl
      threads := ⟨x.followed t ((w.saved.get? t.target).getD []),
        by simp [World.followed, Table.modify, entries, shows.running],
        { is with
          frames := by rw [shows.saved]; rfl
          current := rfl }⟩ }

theorem resume_does {t : FiberTable.Transfer Body}
    (ok : c.fibers.resume c.current id true = .ok t) :
    p.Does c (resume id) (toldSignal t.told) (c.followed t) := by
  refine Does.get fun w shows => ?_
  rw [shows.fibers, shows.thread.current, shows.currentScheduler, Option.isSome_some, ok]
  exact follow_does t

theorem yieldTo_does {s : FiberState} {t : FiberTable.Transfer Body}
    (ok : c.fibers.yield c.current s = .ok t) :
    p.Does c (yieldTo s) (toldSignal t.told) (c.followed t) := by
  refine Does.get fun w shows => ?_
  rw [shows.fibers, shows.thread.current, ok]
  exact follow_does t

theorem finish_does {s : FiberState} {t : FiberTable.Transfer Body}
    (ok : c.fibers.handBack id s = .ok t) :
    p.Does c (finish id s) (toldSignal t.told)
      (Scene.followed { c with frames := .fiberEnd :: c.frames } t) := by
  refine (push_does _).bind (Does.get fun w shows => ?_)
  rw [shows.fibers, ok]
  exact follow_does t

/-- A fiber is entered for the first time, its body being taken out. -/
theorem startFiber_does {body : Body} {s : Signal} (entry : (c.fibers.takeEntry id).2 = some body)
    (h : p.Does
      { c with fibers := (c.fibers.takeEntry id).1, frames := .fiberBody id :: c.frames }
      (startBody body) s u) : p.Does c (startFiber id) s u := by
  have pair : c.fibers.takeEntry id = ((c.fibers.takeEntry id).1, some body) := Prod.ext rfl entry
  refine Does.get fun w shows => ?_
  rw [shows.fibers, pair]
  have taken : p.Does c (modify fun w => { w with fibers := (c.fibers.takeEntry id).1 }) ()
      { c with fibers := (c.fibers.takeEntry id).1 } :=
    .modify fun _ shows => { shows with fibers := rfl }
  exact taken.bind ((push_does _).bind h)

/-- The running fiber is known. -/
theorem currentOrMain_does (current : c.current = some id) : p.Does c currentOrMain id c := by
  refine Does.get fun w shows => ?_
  rw [shows.thread.current, current]
  have known : p.Does c (updateThread fun t =>
      { t with current := some id, main := if t.current.isNone then some id else t.main }) () c :=
    updateThread_does fun _ is => { is with current := current.symm }
  refine Does.bind (u := c) (Does.modify fun w' shows' => ?_) (known.bind (.pure _))
  exact { shows' with fibers := shows.fibers }

/-- A fiber is made where its stack can be mapped. -/
theorem makeFiber_does {size usable : Nat} (mappable : Mappable size usable) (body : Body)
    (inScheduler : Bool) :
    p.Does c (makeFiber body size inScheduler) (.ok ⟨c.fibers.lastId + 1⟩)
      (c.withFiber body usable inScheduler) := by
  have mapped : p.Does c (mapStack size) (.ok usable) c := by
    intro w shows
    refine ⟨w, ?_, shows⟩
    rw [mapStack, Act.on_bind_ok (kernel_on _ w),
      mapStack_of_mappable mappable shows.ample.mmap shows.ample.mprotect]
    rfl
  refine mapped.bind (Does.get fun w shows => ?_)
  rw [shows.fibers]
  refine Does.bind (u := c.withFiber body usable inScheduler)
    (Does.modify fun w' shows' => ?_) ((Does.log _ _).bind (.pure _))
  exact { shows' with fibers := rfl, saved := by rw [shows'.saved]; rfl }

/-- A fiber of any size is made, or there is no stack of that size. -/
theorem makeFiber_ends {body : Body} {size : Nat} {inScheduler : Bool}
    (held : body.handles = []) (shows : p.Depicts c w) :
    p.Ends w (makeFiber body size inScheduler) fun r u =>
      (∃ e, r = .ok (.error e)) ∧ u = c ∨
        ∃ usable, r = .ok (.ok ⟨c.fibers.lastId + 1⟩) ∧
          u = c.withFiber body usable inScheduler := by
  obtain ⟨_, mapped⟩ := shows.ample.mapStack size
  have same : { w with kernel := (w.kernel.mapStack size).1 } = w := by rw [mapped]
  rcases makeFiber_on held size inScheduler w with ⟨e, w', made, quiet⟩ | ⟨usable, w', made, quiet⟩
  · rw [same] at quiet
    refine ⟨c, ?_, ?_⟩ <;> rw [made]
    · exact shows.quiet quiet
    · exact .inl ⟨⟨e, rfl⟩, rfl⟩
  · rw [same] at quiet
    refine ⟨c.withFiber body usable inScheduler, ?_, ?_⟩ <;> rw [made]
    · refine Depicts.quiet (w := w.withFiber body usable inScheduler) ?_ quiet
      refine { shows with fibers := ?_, saved := ?_ }
      · rw [World.withFiber, shows.fibers]
        rfl
      · rw [World.withFiber, shows.fibers, shows.saved]
        rfl
    · exact .inr ⟨usable, by rw [shows.fibers], rfl⟩

theorem resetFiber_does {body : Body} {fibers : FiberTable Body}
    (ok : c.fibers.reset id body = .ok fibers)
    (held : ∀ r b, c.fibers.get? id = some r → r.entry = some b → b.handles = []) :
    p.Does c (resetFiber id body) ()
      { c with
        fibers := c.fibers.restarted id body
        saved := c.saved.put id [.fiberStart id] } := by
  intro w shows
  have fibers := shows.fibers
  refine ⟨_, resetFiber_on (fibers ▸ ok) (fibers ▸ held), ?_⟩
  rw [World.restarted, shows.fibers, shows.saved]
  exact { shows with fibers := rfl, saved := rfl }

theorem report_does (verb label : String) (d : Datum) :
    p.Does c (report verb label d) () { c with reports := c.reports ++ [(verb, d)] } := by
  refine Does.get fun w _ => Does.modify fun w' shows => ?_
  refine { shows with reports := ?_ }
  have actions : ∀ e : Entry, e.isAction = true →
      (World.actions { w' with trace := e :: w'.trace }) = e :: w'.actions := fun e h =>
    List.filter_cons_of_pos h
  have seen : Entry.report? ⟨w'.place, .action (w.actor label) verb d⟩ = some (verb, d) := rfl
  rw [World.reports, actions _ rfl, List.filterMap_cons_some seen, List.reverse_cons]
  exact congrArg (· ++ [(verb, d)]) shows.reports

theorem allocate_does {count size : Nat} (small : count * size < rowLimit) :
    p.Does c (allocate count size) () c := by
  have fits : ¬maxRowBytes < count * size := by
    have wide : rowLimit ≤ maxRowBytes := by decide
    omega
  rw [allocate, if_neg fits, if_neg (Nat.not_le.mpr small)]
  exact .pure ()

theorem startBlock_does (block : Nat) (label : String) :
    p.Does c (startBlock block label) (.done .null)
      { c with frames := .steps (p.program.block block) label :: c.frames } := by
  refine Does.get fun w shows => ?_
  rw [shows.program]
  exact (push_does _).bind (.pure _)

theorem unmapStack_does : p.Does c unmapStack () c := by
  intro w shows
  have unmapped := shows.inKernel (w.kernel.unmapStack_spares p.epoll)
  rw [unmapStack, Act.on_bind_ok (kernel_on _ w)]
  split
  · exact Does.log _ _ _ unmapped
  · exact ⟨_, rfl, unmapped⟩

/-- A fiber whose body was taken out holds nothing else. -/
theorem endFiber_does {r : FiberRecord Body} (held : r.entry = none) :
    p.Does c (endFiber id r) [] { c with toView := c.toView.withoutFiber id } := by
  refine Does.bind (u := { c with fibers := { c.fibers with live := c.fibers.live - 1 } })
    (Does.modify fun w shows => ?_) ?_
  · rw [shows.fibers]
    exact { shows with fibers := rfl }
  · refine Does.when_bind (.log _ _) (Does.when_bind unmapStack_does ?_)
    refine Does.bind (u := { c with toView := c.toView.withoutFiber id })
      (Does.modify fun w shows => ?_) ?_
    · rw [shows.fibers, shows.saved]
      exact { shows with fibers := rfl, saved := rfl }
    · rw [held]
      exact .pure []

/-- A fiber is let go of that has other handles, or has begun its body. -/
theorem releaseOne_fiber_does
    (light : ∀ r, c.fibers.get? id = some r → r.entry = none ∨ 1 < r.handles) :
    p.Does c (releaseOne (.fiber id)) [] (c.freed id) := by
  refine Does.get fun w shows => ?_
  dsimp only
  rw [shows.fibers, Scene.freed, View.released]
  cases found : c.fibers.get? id with
  | none => exact .pure []
  | some r =>
    dsimp only
    split
    · refine Does.bind (u := { c with fibers := c.fibers.release id })
        (Does.modify fun w' shows' => ?_) (.pure [])
      exact { shows' with fibers := congrArg (FiberTable.release · id) shows'.fibers }
    · next last => exact endFiber_does ((light r found).resolve_right last)

/-- A handle of the scheduler less, of several. -/
theorem releaseOne_scheduler_does (several : 1 < c.handles) :
    p.Does c (releaseOne (.scheduler p.scheduler)) [] { c with handles := c.handles - 1 } := by
  refine Does.get fun w shows => ?_
  obtain ⟨x, found, is⟩ := shows.scheduler
  dsimp only
  rw [found]
  dsimp only
  rw [is.handles, if_pos several]
  exact Does.bind (updateScheduler_does fun _ is =>
    { is with handles := congrArg (· - 1) is.handles }) (.pure [])

/-- A handle of the reactor less, of several. -/
theorem releaseOne_reactor_does (several : 1 < c.held) :
    p.Does c (releaseOne (.reactor p.reactor)) [] { c with held := c.held - 1 } := by
  refine Does.get fun w shows => ?_
  obtain ⟨x, found, is⟩ := shows.reactor
  dsimp only
  rw [found]
  dsimp only
  rw [is.handles, if_pos several]
  exact Does.bind (updateReactor_does fun _ is =>
    { is with handles := congrArg (· - 1) is.handles }) (.pure [])

/-- Handles are let go of one after the other, and none of them lets go of more. -/
inductive Frees (p : Station) : Scene → List Handle → Scene → Prop where
  | nil (c : Scene) : Frees p c [] c
  | cons {c u c' : Scene} {h : Handle} {hs : List Handle} (one : p.Does c (releaseOne h) [] u)
      (rest : Frees p u hs c') : Frees p c (h :: hs) c'

theorem Frees.upTo {hs : List Handle} (h : p.Frees c hs c') {n : Nat} (enough : hs.length ≤ n) :
    p.Does c (releaseUpTo n hs) () c' := by
  induction h generalizing n with
  | nil c =>
    rw [releaseUpTo_nil]
    exact .pure ()
  | cons one rest ih =>
    obtain ⟨n, rfl⟩ : ∃ m, n = m + 1 := Nat.exists_eq_add_one.mpr (by simp at enough; omega)
    exact one.bind (ih (by simpa using enough))

theorem Frees.does {hs : List Handle} (h : p.Frees c hs c') : p.Does c (release hs) () c' :=
  Does.get fun _ _ => h.upTo (Nat.le_add_left _ _)

theorem release_nil_does : p.Does c (release []) () c := (Frees.nil c).does

theorem release_fiber_does
    (light : ∀ r, c.fibers.get? id = some r → r.entry = none ∨ 1 < r.handles) :
    p.Does c (release [.fiber id]) () (c.freed id) :=
  Frees.does (.cons (releaseOne_fiber_does light) (.nil _))

theorem release_scheduler_does (several : 1 < c.handles) :
    p.Does c (release [.scheduler p.scheduler]) () { c with handles := c.handles - 1 } :=
  Frees.does (.cons (releaseOne_scheduler_does several) (.nil _))

/-- The scheduler and the reactor are let go of, in either order. -/
theorem release_both_does (several : 1 < c.handles) (several' : 1 < c.held) :
    p.Does c (release [.scheduler p.scheduler, .reactor p.reactor]) ()
        { c with handles := c.handles - 1, held := c.held - 1 } ∧
      p.Does c (release [.reactor p.reactor, .scheduler p.scheduler]) ()
        { c with handles := c.handles - 1, held := c.held - 1 } :=
  ⟨Frees.does (.cons (releaseOne_scheduler_does several)
      (.cons (releaseOne_reactor_does several') (.nil _))),
    Frees.does (.cons (releaseOne_reactor_does several')
      (.cons (releaseOne_scheduler_does several) (.nil _)))⟩

/-- Work on the table, whatever the poller answers. -/
theorem onTable_ends {f : Reactor.Poller Kernel.State → Kernel.State → Reactor.FdTable Handler →
      Kernel.State × Reactor.FdTable Handler × α}
    {post : α → Reactor.FdTable Handler → Prop}
    (h : ∀ k, ∃ k' t a, f (Reactor.epollPoller p.epoll) k c.table = (k', t, a) ∧
      Kernel.State.Spares p.epoll k k' ∧ post a t)
    (shows : p.Depicts c w) :
    p.Ends w (onTable p.reactor f) fun r u =>
      ∃ a t, r = .ok a ∧ post a t ∧ u = { c with table := t } := by
  obtain ⟨x, found, is⟩ := shows.reactor
  obtain ⟨k', t, a, res, spares, good⟩ := h w.kernel
  have res' : f (Reactor.epollPoller x.epoll) w.kernel x.table = (k', t, a) := by
    rw [is.epoll, is.table, res]
  refine ⟨{ c with table := t }, ?_, ?_⟩ <;> rw [onTable_on found res']
  · refine { shows.inKernel spares with reactor := ⟨_, withTable_get? found k' t, ?_⟩ }
    exact { is with table := rfl }
  · exact ⟨a, t, rfl, good, rfl⟩

theorem onTimers_does (f : Timers TimerBody → Timers TimerBody × α) :
    p.Does c (onTimers p.timers f) (f c.timers).2 { c with timers := (f c.timers).1 } := by
  intro w shows
  obtain ⟨x, found, same⟩ := shows.timers
  refine ⟨{ w with timerSets := w.timerSets.modify p.timers fun s =>
    { s with timers := (f c.timers).1 } }, ?_, ?_⟩
  · rw [onTimers, Act.on_bind_get, found, Option.getD_some]
    dsimp only
    rw [same]
    rfl
  · refine { shows with timers := ⟨{ x with timers := (f c.timers).1 }, ?_, rfl⟩ }
    change (w.timerSets.modify p.timers _).get? p.timers = _
    rw [Table.get?_modify, if_pos rfl, found]
    rfl

theorem wake_does (epoll : Nat) (failure : String) : p.Does c (wakePoller epoll failure) () c := by
  intro w shows
  have woken := shows.inKernel (.of_alike (w.kernel.wake_alike epoll))
  rw [wakePoller, Act.on_bind_ok (kernel_on _ w)]
  split
  · exact ⟨_, rfl, woken⟩
  · exact Does.log _ _ _ woken

theorem notifyFront_does : p.Does c (notifyFront p.timers) () c := by
  refine Does.get fun w shows => ?_
  obtain ⟨x, found, _⟩ := shows.timers
  rw [found]
  dsimp only
  split
  · next n _ =>
    refine Does.modify fun w' shows' => ?_
    obtain ⟨y, found', same'⟩ := shows'.timers
    refine { shows' with timers := ⟨{ y with front := .tally (n + 1) }, ?_, same'⟩ }
    change (w'.timerSets.modify p.timers _).get? p.timers = _
    rw [Table.get?_modify, if_pos rfl, found']
    rfl
  · exact wake_does _ _

/-- Handlers that fired queue their tasks and let go of the scheduler. -/
theorem fireAll_does {hs : List Handler} (mine : ∀ h ∈ hs, h.scheduler = p.scheduler)
    (several : hs.length < c.handles) :
    p.Does c (fireAll hs) () (c.fired hs) := by
  induction hs generalizing c with
  | nil =>
    rw [Scene.fired, List.map_nil, List.append_nil]
    exact .pure ()
  | cons h hs ih =>
    obtain ⟨mine, rest⟩ := List.forall_mem_cons.mp mine
    rw [List.length_cons] at several
    have first : p.Does c (do
        enqueue h.scheduler [⟨h.task, none⟩]
        release [.scheduler h.scheduler]) () (c.fired [h]) := by
      rw [mine]
      exact (enqueue_does _).bind (release_scheduler_does (by change 1 < c.handles; omega))
    have both : (c.fired [h]).fired hs = c.fired (h :: hs) := by
      simp [Scene.fired, Nat.sub_sub, Nat.add_comm]
    rw [← both]
    exact first.bind (ih rest (by change hs.length < c.handles - 1; omega))

/-- An effect that is known to take no time. -/
theorem Does.gently {act : Act α} {still : Prop} (h : p.Does c act a c') (gently : act.Gently still)
    (shows : p.Depicts c w) :
    ∃ w', act.on w = (.ok a, w') ∧ p.Depicts c' w' ∧ Gentle still w w' := by
  obtain ⟨w', did, shows'⟩ := h w shows
  refine ⟨w', did, shows', ?_⟩
  have gentle := gently w
  rw [did] at gentle
  exact gentle

/-- The signal that an end of an effect becomes. -/
def ending : Except Stop Signal → Signal
  | .ok s => s
  | .error (.panic x) => .raised x
  | .error (.failure x) => .failed x

theorem perform_eq (w : World) (act : Act Signal) :
    w.perform act = (ending (act.on w).1, (act.on w).2) := by
  rcases did : act.on w with ⟨(_ | _) | s, w'⟩
  · exact perform_of_failure did
  · exact perform_of_panic did
  · exact perform_of_ok did

theorem Depicts.popped (h : p.Depicts c w) (rest : List Frame) :
    p.Depicts { c with frames := rest } (w.popped rest) := by
  obtain ⟨t, entries, is⟩ := h.threads
  exact
    { h with
      threads := ⟨{ t with frames := rest }, by
        simp [World.popped, World.updateThread, Table.modify, entries, h.running],
        { is with frames := rfl }⟩ }

theorem Depicts.signalled (h : p.Depicts c w) (s : Signal) (wait : Option Wait) :
    p.Depicts { c with signal := s, wait := wait }
      (w.updateThread fun t => { t with signal := s, wait := wait }) := by
  obtain ⟨t, entries, is⟩ := h.threads
  exact
    { h with
      threads := ⟨{ t with signal := s, wait := wait }, by
        simp [World.updateThread, Table.modify, entries, h.running],
        { is with signal := rfl, wait := rfl }⟩ }

/-- A turn of all threads of a world with one thread is a step of that thread. -/
theorem Depicts.turns (h : p.Depicts c w) : w.turns w.threadIds = w.step := by
  obtain ⟨t, entries, is⟩ := h.threads
  have ids : w.threadIds = [mainThread] := by
    rw [World.threadIds, entries]
    rfl
  have same : ({ w with running := mainThread } : World) = w := by
    rw [← h.running]
  have going : ¬w.aborted = true := by rw [h.aborted]; exact Bool.false_ne_true
  rw [ids, World.turns, if_neg going, same]
  simp [World.turns]

/-- A round of a world with one thread is a step of that thread, after which time may pass. -/
theorem Depicts.step (h : p.Depicts c w) (round : w.round = some w') :
    ∃ clock, w' = { w.step.2 with clock := clock } := by
  simp only [World.round, h.turns] at round
  split at round
  · cases round
    exact ⟨w.step.2.clock, rfl⟩
  · cases round
  · cases round
    exact ⟨_, rfl⟩
  · obtain ⟨moment, _, rfl⟩ := Option.map_eq_some_iff.mp round
    exact ⟨_, rfl⟩

/-- A step of a thread that does not wait runs its innermost frame. -/
theorem Depicts.moves (h : p.Depicts c w) (awake : c.wait = none) {f : Frame} {rest : List Frame}
    (frames : c.frames = f :: rest) {r : Except Stop Signal} {v : World}
    (did : (proceedWith f c.signal).on (w.popped rest) = (r, v)) :
    w.step = (true, v.updateThread fun t => { t with signal := ending r }) := by
  have is := h.thread
  have frames' : w.thread.frames = f :: rest := is.frames.trans frames
  have popped : (w.updateThread fun t => { t with frames := rest }) = w.popped rest := rfl
  simp only [World.step, is.ended, is.wait, awake, frames', is.signal, popped, perform_eq, did,
    Option.isSome_none, Bool.false_eq_true, if_false]

/-- The signal of the thread may be any other one. -/
theorem Depicts.told (h : p.Depicts c w) (s : Signal) :
    p.Depicts { c with signal := s } (w.updateThread fun t => { t with signal := s }) := by
  obtain ⟨t, entries, is⟩ := h.threads
  exact
    { h with
      threads := ⟨{ t with signal := s }, by
        simp [World.updateThread, Table.modify, entries, h.running],
        { is with signal := rfl }⟩ }

/-- A thread that does not wait runs its innermost frame. -/
theorem Depicts.runs (h : p.Depicts c w) (awake : c.wait = none) {f : Frame} {rest : List Frame}
    (frames : c.frames = f :: rest) (post : Signal → Scene → Prop)
    (ends : p.Ends (w.popped rest) (proceedWith f c.signal) fun r u => post (ending r) u)
    (round : w.round = some w') :
    ∃ u s, p.Depicts { u with signal := s } w' ∧ w'.thread.signal = s ∧ post s u := by
  obtain ⟨clock, rfl⟩ := h.step round
  obtain ⟨u, shows, good⟩ := ends
  rcases did : (proceedWith f c.signal).on (w.popped rest) with ⟨r, v⟩
  rw [did] at shows good
  rw [h.moves awake frames did]
  have told := shows.told (ending r)
  refine ⟨u, _, told.outside told.ample clock, ?_, good⟩
  exact (told.outside told.ample clock).thread.signal

end Station

end Fibers.Script
