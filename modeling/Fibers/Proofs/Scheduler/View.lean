import Fibers.Proofs.Fiber.Switching
import Fibers.Proofs.Reactor.Queueing

/-!
What a run loop depends on. A `View` is the part of a world that a run loop on the only thread reads
and changes: the fibers and their stacks, the frames of the thread, what the workers share, and what
was reported. Effects are described by what they do to views; a run of the program, frame by frame,
then is a matter of views alone.
-/

namespace Fibers.Script

/-- The verb and the result of an action. -/
def Entry.report? (e : Entry) : Option (String × Datum) :=
  match e.event with
  | .action _ verb result => some (verb, result)
  | .logged .. => none

/-- What was reported, first one first. -/
def World.reports (w : World) : List (String × Datum) := (w.actions.filterMap Entry.report?).reverse

/-- What does not change while a scheduler is stopped. -/
structure Site where
  program : Program
  names : Names
  timing : Timing
  scheduler : SchedulerId
  config : SchedulerConfig
  root : FiberId

/-- What the run loop of a scheduler depends on. -/
structure View where
  fibers : FiberTable Body
  saved : Table FiberId (List Frame)
  frames : List Frame
  signal : Signal
  current : Option FiberId
  shared : Shared Body
  /-- The handles of the scheduler. -/
  handles : Nat
  reports : List (String × Datum)

/-- The record of the scheduler, whose hooks may have been woken any number of times. -/
structure Site.IsRecord (c : Site) (shared : Shared Body) (handles : Nat) (x : SchedulerRecord) :
    Prop where
  config : x.config = c.config
  shared : x.shared = shared
  hooks : ∃ place, x.hooks = .parking place
  root : x.root = some c.root
  owner : x.owner = some mainThread
  workers : x.workers = []
  handles : x.handles = handles

/-- The thread of the run, which neither waits nor has ended. -/
structure Site.IsThread (c : Site) (frames : List Frame) (signal : Signal)
    (current : Option FiberId) (t : Thread) : Prop where
  frames : t.frames = frames
  signal : t.signal = signal
  current : t.current = current
  scheduler : t.scheduler = some c.scheduler
  wait : t.wait = none
  ended : t.ended = none

/-- The world is as the view says. There is one thread, and stacks can be mapped. -/
structure Shows (c : Site) (v : View) (w : World) : Prop where
  program : w.program = c.program
  names : w.names = c.names
  timing : w.timing = c.timing
  aborted : w.aborted = false
  running : w.running = mainThread
  threads : ∃ t, w.threads.entries = [(mainThread, t)] ∧ c.IsThread v.frames v.signal v.current t
  record : ∃ x, w.schedulers.get? c.scheduler = some x ∧ c.IsRecord v.shared v.handles x
  fibers : w.fibers = v.fibers
  saved : w.saved = v.saved
  reports : w.reports = v.reports
  mmap : w.kernel.faults.get? .mmap = none
  mprotect : w.kernel.faults.get? .mprotect = none

variable {c : Site} {u v v' : View} {w w' : World} {α β : Type} {a : α} {b : β}

theorem Shows.quiet (h : Shows c v w) (q : Quiet w w') : Shows c v w' := by
  obtain ⟨_, _, _, rfl, actions⟩ := q
  refine { h with reports := ?_ }
  rw [World.reports, actions]
  exact h.reports

/-- An effect leads from a view to another one, with an answer. -/
def Does (c : Site) (v : View) (act : Act α) (a : α) (v' : View) : Prop :=
  ∀ w, Shows c v w → ∃ w', act.on w = (.ok a, w') ∧ Shows c v' w'

namespace Does

theorem pure (a : α) : Does c v (pure a) a v := fun w h => ⟨w, rfl, h⟩

theorem bind {x : Act α} {f : α → Act β} (h : Does c v x a u) (g : Does c u (f a) b v') :
    Does c v (x >>= f) b v' := by
  intro w shows
  obtain ⟨w₁, first, shows₁⟩ := h w shows
  obtain ⟨w₂, second, shows₂⟩ := g w₁ shows₁
  exact ⟨w₂, (Act.on_bind_ok first).trans second, shows₂⟩

theorem get {f : World → Act α} (h : ∀ w, Shows c v w → Does c v (f w) a v') :
    Does c v (get >>= f) a v' := fun w shows => h w shows w shows

theorem modify {g : World → World} (h : ∀ w, Shows c v w → Shows c v' (g w)) :
    Does c v (modify g) () v' := fun w shows => ⟨g w, rfl, h w shows⟩

theorem quiet {act : Act α} (h : ∀ w, ∃ w', act.on w = (.ok a, w') ∧ Quiet w w') :
    Does c v act a v := by
  intro w shows
  obtain ⟨w', did, q⟩ := h w
  exact ⟨w', did, shows.quiet q⟩

theorem log (l : Log.Level) (text : String) : Does c v (log l text) () v :=
  quiet fun w => log_quiet l text w

theorem record {f : SchedulerRecord → Act α}
    (h : ∀ x, c.IsRecord v.shared v.handles x → Does c v (f x) a v') :
    Does c v (schedulerRecord c.scheduler >>= f) a v' := by
  intro w shows
  obtain ⟨x, found, is⟩ := shows.record
  rw [Act.on_bind_ok (schedulerRecord_on c.scheduler w), found]
  exact h x is w shows

end Does

theorem Shows.thread (h : Shows c v w) : c.IsThread v.frames v.signal v.current w.thread := by
  obtain ⟨t, entries, is⟩ := h.threads
  have found : w.threads.get? w.running = some t := by
    rw [h.running, Table.get?, entries]
    rfl
  rw [World.thread, found]
  exact is

theorem Shows.currentScheduler (h : Shows c v w) : w.currentScheduler = some c.scheduler := by
  obtain ⟨x, found, _⟩ := h.record
  rw [World.currentScheduler, h.thread.scheduler]
  simp only [Table.contains, found, Option.isSome_some, if_true]

/-- An update of the thread. -/
theorem updateThread_does {f : Thread → Thread} {frames : List Frame} {signal : Signal}
    {current : Option FiberId}
    (h : ∀ t, c.IsThread v.frames v.signal v.current t → c.IsThread frames signal current (f t)) :
    Does c v (updateThread f) ()
      { v with frames := frames, signal := signal, current := current } := by
  refine Does.modify fun w shows => ?_
  obtain ⟨t, entries, is⟩ := shows.threads
  exact
    { shows with threads := ⟨f t, by simp [Table.modify, entries, shows.running], h t is⟩ }

theorem push_does (f : Frame) : Does c v (push f) () { v with frames := f :: v.frames } :=
  updateThread_does fun _ is => { is with frames := congrArg (f :: ·) is.frames }

/-- A change of the record of the scheduler. -/
theorem updateScheduler_does {f : SchedulerRecord → SchedulerRecord} {shared : Shared Body}
    {handles : Nat} (h : ∀ x, c.IsRecord v.shared v.handles x → c.IsRecord shared handles (f x)) :
    Does c v (updateScheduler c.scheduler f) ()
      { v with shared := shared, handles := handles } := by
  refine Does.modify fun w shows => ?_
  obtain ⟨x, found, isRecord⟩ := shows.record
  refine { shows with record := ⟨f x, ?_, h x isRecord⟩ }
  change (w.schedulers.modify c.scheduler f).get? c.scheduler = _
  rw [Table.get?_modify, if_pos rfl, found]
  rfl

theorem updateShared_does (f : Shared Body → Shared Body) :
    Does c v (updateShared c.scheduler f) () { v with shared := f v.shared } :=
  updateScheduler_does fun _ is => { is with shared := congrArg f is.shared }

theorem tickle_does : Does c v (tickle c.scheduler) () v := by
  refine Does.record fun x is => ?_
  obtain ⟨place, hooks⟩ := is.hooks
  rw [hooks]
  exact updateScheduler_does fun _ is => { is with hooks := ⟨_, rfl⟩ }

theorem Does.when {p : Prop} [Decidable p] {act : Act Unit} (h : Does c v act () v) :
    Does c v (if p then act else Pure.pure ()) () v := by
  split
  · exact h
  · exact .pure ()

/-- An effect that is not always done, before one that is. -/
theorem Does.when_bind {p : Prop} [Decidable p] {act : Act Unit} {f : Unit → Act α}
    (h : Does c v act () v) (g : Does c v (f ()) a v') :
    Does c v (if p then act >>= f else f ()) a v' := by
  split
  · exact h.bind g
  · exact g

theorem enqueue_does (entries : List (QueueEntry Body)) :
    Does c v (enqueue c.scheduler entries) ()
      { v with shared := { v.shared with queue := v.shared.queue ++ entries } } := by
  refine Does.record fun x is => ?_
  rw [is.shared]
  exact (updateShared_does fun _ => (v.shared.push entries).1).bind (.when tickle_does)

theorem settle_does :
    Does c v (settle c.scheduler) () { v with shared := v.shared.settle } :=
  updateShared_does _

/-- The oldest entry is taken, if the worker may have it. -/
theorem takeNext_does {e : QueueEntry Body} {q : List (QueueEntry Body)} {worker : Nat}
    (queue : v.shared.queue = e :: q)
    (eligible : TaskQueue.eligible (fun id => v.fibers.state id == .exec) worker e = true) :
    Does c v (takeNext c.scheduler worker) (some e)
      { v with shared := { v.shared with queue := q, active := v.shared.active + 1 } } := by
  refine Does.get fun w shows => Does.record fun x is => ?_
  rw [shows.fibers, is.shared]
  have taken : v.shared.take (fun id => v.fibers.state id == .exec) worker =
      ⟨{ v.shared with queue := q, active := v.shared.active + 1 }, some e, !q.isEmpty⟩ := by
    simp [Shared.take, TaskQueue.takeNext, TaskQueue.scan, queue, eligible]
  rw [taken]
  exact (updateShared_does _).bind (.when_bind tickle_does (.pure _))

theorem takeNext_none_does {worker : Nat} (queue : v.shared.queue = []) :
    Does c v (takeNext c.scheduler worker) none v := by
  refine Does.get fun w shows => Does.record fun x is => ?_
  rw [shows.fibers, is.shared]
  have taken : v.shared.take (fun id => v.fibers.state id == .exec) worker =
      ⟨v.shared, none, false⟩ := by
    obtain ⟨fibers, saved, frames, signal, current, ⟨_, _, _, _, _, _⟩, handles, reports⟩ := v
    obtain rfl := queue
    rfl
  rw [taken]
  exact (updateShared_does _).bind (.when_bind tickle_does (.pure _))

/-- A change of the fibers and of the frames that are put away. -/
theorem Shows.withFibers (h : Shows c v w) (fibers : FiberTable Body)
    (saved : Table FiberId (List Frame)) :
    Shows c { v with fibers := fibers, saved := saved }
      { w with fibers := fibers, saved := saved } :=
  { h with fibers := rfl, saved := rfl }

theorem retain_fiber_does (id : FiberId) :
    Does c v (retain (.fiber id)) () { v with fibers := v.fibers.retain id } :=
  Does.modify fun _ shows =>
    { shows with fibers := congrArg (FiberTable.retain · id) shows.fibers }

theorem retain_scheduler_does :
    Does c v (retain (.scheduler c.scheduler)) () { v with handles := v.handles + 1 } :=
  updateScheduler_does fun _ is => { is with handles := congrArg (· + 1) is.handles }

/-- The view after control was transferred. -/
def View.followed (v : View) (t : FiberTable.Transfer Body) : View :=
  { v with
    fibers := t.fibers
    saved := (v.saved.put t.source v.frames).erase t.target
    frames := (v.saved.get? t.target).getD []
    current := some t.target }

theorem follow_does (t : FiberTable.Transfer Body) :
    Does c v (follow t) (toldSignal t.told) (v.followed t) := by
  intro w shows
  refine ⟨_, follow_on t w, ?_⟩
  obtain ⟨x, entries, is⟩ := shows.threads
  have frames : w.thread.frames = v.frames := shows.thread.frames
  exact
    { shows with
      fibers := rfl
      saved := by
        change (w.saved.put t.source w.thread.frames).erase t.target = _
        rw [shows.saved, frames]
        rfl
      threads := ⟨x.followed t ((w.saved.get? t.target).getD []),
        by simp [World.followed, Table.modify, entries, shows.running],
        { is with
          frames := by rw [shows.saved]; rfl
          current := rfl }⟩ }

/-- The fiber `id` is entered by a resume. -/
theorem resume_does {id : FiberId} {t : FiberTable.Transfer Body}
    (ok : v.fibers.resume v.current id true = .ok t) :
    Does c v (resume id) (toldSignal t.told) (v.followed t) := by
  refine Does.get fun w shows => ?_
  rw [shows.fibers, shows.thread.current, shows.currentScheduler, Option.isSome_some, ok]
  exact follow_does t

theorem yieldTo_does {s : FiberState} {t : FiberTable.Transfer Body}
    (ok : v.fibers.yield v.current s = .ok t) :
    Does c v (yieldTo s) (toldSignal t.told) (v.followed t) := by
  refine Does.get fun w shows => ?_
  rw [shows.fibers, shows.thread.current, ok]
  exact follow_does t

theorem finish_does {id : FiberId} {s : FiberState} {t : FiberTable.Transfer Body}
    (ok : v.fibers.handBack id s = .ok t) :
    Does c v (finish id s) (toldSignal t.told)
      (View.followed { v with frames := .fiberEnd :: v.frames } t) := by
  refine (push_does _).bind (Does.get fun w shows => ?_)
  rw [shows.fibers, ok]
  exact follow_does t

theorem finishPanicked_does {id : FiberId} {p : Panic} {t : FiberTable.Transfer Body}
    (lawful : ∀ x, p ≠ .violation x) (ok : v.fibers.handBack id .except = .ok t) :
    Does c v (finishPanicked id p) (toldSignal t.told)
      (View.followed { v with frames := .fiberEnd :: v.frames } t) := by
  unfold finishPanicked
  split
  · next x => exact absurd rfl (lawful x)
  · exact (Does.log _ _).bind (finish_does ok)

/-- A size for which stacks can be had, of so many usable bytes. -/
def Mappable (size usable : Nat) : Prop :=
  Kernel.State.stackSize? size = some usable ∧ usable < Kernel.State.stackLimit

theorem mapStack_of_mappable {k : Kernel.State} {size usable : Nat} (h : Mappable size usable)
    (mmap : k.faults.get? .mmap = none) (mprotect : k.faults.get? .mprotect = none) :
    k.mapStack size = (k, .ok usable) := by
  have small : ¬Kernel.State.stackLimit ≤ usable := Nat.not_le.mpr h.2
  have granted : ∀ call, k.faults.get? call = none → k.takeFault call = (k, none) := by
    intro call none
    rw [Kernel.State.takeFault, none]
  unfold Kernel.State.mapStack
  rw [h.1]
  dsimp only
  rw [granted .mmap mmap]
  dsimp only
  rw [if_neg small, granted .mprotect mprotect]

/-- The view with one fiber more. -/
def View.withFiber (v : View) (body : Body) (stack : Nat) (inScheduler : Bool) : View :=
  let (fibers, id) := v.fibers.create body stack inScheduler
  { v with fibers := fibers, saved := v.saved.put id [.fiberStart id] }

theorem makeFiber_does {size usable : Nat} (mappable : Mappable size usable) (body : Body)
    (inScheduler : Bool) :
    Does c v (makeFiber body size inScheduler) (.ok ⟨v.fibers.lastId + 1⟩)
      (v.withFiber body usable inScheduler) := by
  have mapped : Does c v (mapStack size) (.ok usable) v := by
    intro w shows
    refine ⟨w, ?_, shows⟩
    rw [mapStack, Act.on_bind_ok (kernel_on _ w),
      mapStack_of_mappable mappable shows.mmap shows.mprotect]
    rfl
  refine mapped.bind (Does.get fun w shows => ?_)
  rw [shows.fibers]
  refine Does.bind (Does.modify fun w' shows' => ?_) ((Does.log _ _).bind (.pure _))
  rw [shows'.saved]
  exact shows'.withFibers _ _

theorem resetFiber_does {id : FiberId} {body : Body} {fibers : FiberTable Body}
    (ok : v.fibers.reset id body = .ok fibers)
    (held : ∀ r b, v.fibers.get? id = some r → r.entry = some b → b.handles = []) :
    Does c v (resetFiber id body) ()
      { v with
        fibers := v.fibers.restarted id body
        saved := v.saved.put id [.fiberStart id] } := by
  intro w shows
  have fibers := shows.fibers
  refine ⟨_, resetFiber_on (fibers ▸ ok) (fibers ▸ held), ?_⟩
  rw [World.restarted, shows.fibers, shows.saved]
  exact shows.withFibers _ _

theorem report_does (verb label : String) (d : Datum) :
    Does c v (report verb label d) () { v with reports := v.reports ++ [(verb, d)] } := by
  refine Does.get fun w _ => Does.modify fun w' shows => ?_
  refine { shows with reports := ?_ }
  have actions : ∀ e : Entry, e.isAction = true →
      (World.actions { w' with trace := e :: w'.trace }) = e :: w'.actions := fun e h =>
    List.filter_cons_of_pos h
  have seen : Entry.report? ⟨w'.place, .action (w.actor label) verb d⟩ = some (verb, d) := rfl
  rw [World.reports, actions _ rfl, List.filterMap_cons_some seen, List.reverse_cons]
  exact congrArg (· ++ [(verb, d)]) shows.reports

theorem allocate_does {count size : Nat} (small : count * size < rowLimit) :
    Does c v (allocate count size) () v := by
  have fits : ¬maxRowBytes < count * size := by
    have wide : rowLimit ≤ maxRowBytes := by decide
    omega
  rw [allocate, if_neg fits, if_neg (Nat.not_le.mpr small)]
  exact .pure ()

/-- The view without a fiber. -/
def View.withoutFiber (v : View) (id : FiberId) : View :=
  { v with
    fibers := { v.fibers with records := v.fibers.records.erase id, live := v.fibers.live - 1 }
    saved := v.saved.erase id }

/-- The view after a handle of a fiber was let go of. -/
def View.released (v : View) (id : FiberId) : View :=
  match v.fibers.get? id with
  | none => v
  | some r =>
    if 1 < r.handles then { v with fibers := v.fibers.release id } else v.withoutFiber id

theorem unmapStack_does : Does c v unmapStack () v := by
  intro w shows
  have unmapped : Shows c v { w with kernel := w.kernel.unmapStack.1 } := by
    have faults : ∀ call, call ≠ .munmap → w.kernel.faults.get? call = none →
        w.kernel.unmapStack.1.faults.get? call = none := by
      intro call other none
      change (w.kernel.takeFault .munmap).1.faults.get? call = _
      unfold Kernel.State.takeFault
      split
      · exact (Table.get?_erase_other _ other).trans none
      · exact none
    exact
      { shows with
        mmap := faults _ (by decide) shows.mmap
        mprotect := faults _ (by decide) shows.mprotect }
  rw [unmapStack, Act.on_bind_ok (kernel_on _ w)]
  split
  · exact Does.log _ _ _ unmapped
  · exact ⟨_, rfl, unmapped⟩

/-- A fiber whose body was taken out holds nothing else. -/
theorem endFiber_does {id : FiberId} {r : FiberRecord Body} (held : r.entry = none) :
    Does c v (endFiber id r) [] (v.withoutFiber id) := by
  refine Does.bind (u := { v with fibers := { v.fibers with live := v.fibers.live - 1 } })
    (Does.modify fun w shows => ?_) ?_
  · rw [shows.fibers]
    exact { shows with fibers := rfl }
  · refine Does.when_bind (.log _ _) (Does.when_bind unmapStack_does ?_)
    refine Does.bind (u := v.withoutFiber id) (Does.modify fun w shows => ?_) ?_
    · rw [shows.fibers, shows.saved]
      exact { shows with fibers := rfl, saved := rfl }
    · rw [held]
      exact .pure []

theorem releaseOne_does {id : FiberId}
    (held : ∀ r, v.fibers.get? id = some r → r.entry = none) :
    Does c v (releaseOne (.fiber id)) [] (v.released id) := by
  refine Does.get fun w shows => ?_
  dsimp only
  rw [shows.fibers, View.released]
  cases found : v.fibers.get? id with
  | none => exact .pure []
  | some r =>
    dsimp only
    split
    · refine Does.bind (u := { v with fibers := v.fibers.release id })
        (Does.modify fun w' shows' => ?_) (.pure [])
      exact { shows' with fibers := congrArg (FiberTable.release · id) shows'.fibers }
    · exact endFiber_does (held r found)

/-- A handle of the scheduler less, of several. -/
theorem releaseOne_scheduler_does (several : 1 < v.handles) :
    Does c v (releaseOne (.scheduler c.scheduler)) [] { v with handles := v.handles - 1 } := by
  refine Does.get fun w shows => ?_
  obtain ⟨x, found, is⟩ := shows.record
  dsimp only
  rw [found]
  dsimp only
  rw [is.handles, if_pos several]
  exact Does.bind (updateScheduler_does fun _ is =>
    { is with handles := congrArg (· - 1) is.handles }) (.pure [])

theorem release_scheduler_does (several : 1 < v.handles) :
    Does c v (release [.scheduler c.scheduler]) () { v with handles := v.handles - 1 } := by
  refine Does.get fun w _ => (releaseOne_scheduler_does several).bind ?_
  rw [List.append_nil, releaseUpTo_nil]
  exact .pure ()

/-- To let go of one fiber gives no fiber a body. -/
theorem released_entry (id : FiberId) {j : FiberId} {r : FiberRecord Body}
    (found : (v.released id).fibers.get? j = some r) :
    ∃ r', v.fibers.get? j = some r' ∧ r.entry = r'.entry := by
  unfold View.released at found
  split at found
  · exact ⟨r, found, rfl⟩
  · split at found
    · change (v.fibers.records.modify id _).get? j = some r at found
      rw [Table.get?_modify] at found
      split at found
      · obtain ⟨r', hr', rfl⟩ := Option.map_eq_some_iff.mp found
        exact ⟨r', hr', rfl⟩
      · exact ⟨r, found, rfl⟩
    · change (v.fibers.records.erase id).get? j = some r at found
      rw [Table.get?_erase] at found
      split at found
      · cases found
      · exact ⟨r, found, rfl⟩

theorem releaseUpTo_does {n : Nat} (ids : List FiberId) (enough : ids.length ≤ n)
    (held : ∀ id ∈ ids, ∀ r, v.fibers.get? id = some r → r.entry = none) :
    Does c v (releaseUpTo n (ids.map .fiber)) () (ids.foldl View.released v) := by
  induction ids generalizing n v with
  | nil =>
    rw [List.map_nil, releaseUpTo_nil]
    exact .pure ()
  | cons id ids ih =>
    obtain ⟨n, rfl⟩ : ∃ m, n = m + 1 := Nat.exists_eq_add_one.mpr (by simp at enough; omega)
    refine (releaseOne_does (held id List.mem_cons_self)).bind
      (ih (by simpa using enough) fun j mem r found => ?_)
    obtain ⟨r', found', entry⟩ := released_entry id found
    rw [entry]
    exact held j (List.mem_cons_of_mem _ mem) r' found'

theorem release_fibers_does (ids : List FiberId)
    (held : ∀ id ∈ ids, ∀ r, v.fibers.get? id = some r → r.entry = none) :
    Does c v (release (ids.map .fiber)) () (ids.foldl View.released v) := by
  refine Does.get fun w _ => releaseUpTo_does ids ?_ held
  rw [List.length_map]
  exact Nat.le_add_left _ _

/-- The run of a world comes past another one. -/
def Passes (w w' : World) : Prop := ∃ n, ∀ k, w.runUpTo (n + k) = w'.runUpTo k

theorem Passes.refl (w : World) : Passes w w := ⟨0, fun k => by rw [Nat.zero_add]⟩

theorem Passes.trans {w₁ w₂ w₃ : World} (h : Passes w₁ w₂) (g : Passes w₂ w₃) : Passes w₁ w₃ := by
  obtain ⟨n, hn⟩ := h
  obtain ⟨m, hm⟩ := g
  exact ⟨n + m, fun k => by rw [Nat.add_assoc, hn, hm]⟩

/-- Every run from a view comes past another one. -/
def Runs (c : Site) (v v' : View) : Prop :=
  ∀ w, Shows c v w → ∃ w', Passes w w' ∧ Shows c v' w'

theorem Runs.refl (v : View) : Runs c v v := fun w shows => ⟨w, .refl w, shows⟩

theorem Runs.trans (h : Runs c u v) (g : Runs c v v') : Runs c u v' := by
  intro w shows
  obtain ⟨w₁, passes₁, shows₁⟩ := h w shows
  obtain ⟨w₂, passes₂, shows₂⟩ := g w₁ shows₁
  exact ⟨w₂, passes₁.trans passes₂, shows₂⟩

/-- The world while its thread runs a frame. -/
def World.popped (w : World) (rest : List Frame) : World :=
  w.updateThread fun t => { t with frames := rest }

theorem Shows.popped (h : Shows c v w) (rest : List Frame) :
    Shows c { v with frames := rest } (w.popped rest) := by
  obtain ⟨t, entries, is⟩ := h.threads
  exact
    { h with
      threads := ⟨{ t with frames := rest }, by
        simp [World.popped, World.updateThread, Table.modify, entries, h.running],
        { is with frames := rfl }⟩ }

theorem Shows.signalled (h : Shows c v w) (s : Signal) :
    Shows c { v with signal := s } (w.updateThread fun t => { t with signal := s }) := by
  obtain ⟨t, entries, is⟩ := h.threads
  exact
    { h with
      threads := ⟨{ t with signal := s }, by
        simp [World.updateThread, Table.modify, entries, h.running],
        { is with signal := rfl }⟩ }

theorem Shows.notOver (h : Shows c v w) : w.isOver = false := by
  obtain ⟨t, entries, is⟩ := h.threads
  have found : w.threads.get? mainThread = some t := by
    rw [Table.get?, entries]
    rfl
  simp only [World.isOver, World.hasEnded, h.aborted, found, is.ended, Option.isSome_none,
    Bool.or_self]

/-- A round of a world with one thread is a step of that thread. -/
theorem World.round_of_step {t : Thread} (entries : w.threads.entries = [(mainThread, t)])
    (running : w.running = mainThread) (alive : w.aborted = false) (step : w.step = (true, w')) :
    ∃ clock, w.round = some { w' with clock := clock } := by
  have ids : w.threadIds = [mainThread] := by
    rw [World.threadIds, entries]
    rfl
  have turns : w.turns w.threadIds = (true, w') := by
    have same : ({ w with running := mainThread } : World) = w := by
      rw [← running]
    have alive : ¬w.aborted = true := by rw [alive]; exact Bool.false_ne_true
    rw [ids, World.turns, if_neg alive, same, step]
    rfl
  unfold World.round
  rw [turns]
  dsimp only
  split
  · exact ⟨w'.clock, rfl⟩
  · next moved => cases moved
  · exact ⟨_, rfl⟩
  · next moved => cases moved

/-- The thread runs its innermost frame in a round. -/
theorem Shows.round (h : Shows c v w) {f : Frame} {rest : List Frame}
    (frames : v.frames = f :: rest) {s : Signal} {u : World}
    (performed : (w.popped rest).perform (proceedWith f v.signal) = (s, u)) :
    ∃ clock,
      w.round = some { u.updateThread fun t => { t with signal := s } with clock := clock } := by
  obtain ⟨t, entries, _⟩ := h.threads
  refine World.round_of_step entries h.running h.aborted ?_
  have is := h.thread
  have frames' : w.thread.frames = f :: rest := is.frames.trans frames
  have performed' : (w.updateThread fun t => { t with frames := rest }).perform
      (proceedWith f v.signal) = (s, u) := performed
  simp only [World.step, is.ended, is.wait, frames', is.signal, performed', Option.isSome_none,
    Bool.false_eq_true, if_false]

/-- The thread runs its innermost frame, which ends in some way. -/
theorem Shows.passes {f : Frame} {rest : List Frame} (h : Shows c v w)
    (frames : v.frames = f :: rest)
    (performed : (w.popped rest).perform (proceedWith f v.signal) = (v'.signal, w'))
    (after : Shows c { v' with signal := v.signal } w') :
    ∃ w'', Passes w w'' ∧ Shows c v' w'' := by
  obtain ⟨clock, round⟩ := h.round frames performed
  refine ⟨{ w'.updateThread fun t => { t with signal := v'.signal } with clock := clock },
    ⟨1, fun k => ?_⟩, { after.signalled v'.signal with }⟩
  rw [Nat.add_comm, World.runUpTo, h.notOver, if_neg Bool.false_ne_true, round]

theorem Runs.of_perform {f : Frame} {rest : List Frame} (frames : v.frames = f :: rest)
    (h : ∀ w, Shows c { v with frames := rest } w →
      ∃ w', w.perform (proceedWith f v.signal) = (v'.signal, w') ∧
        Shows c { v' with signal := v.signal } w') : Runs c v v' := by
  intro w shows
  obtain ⟨u, performed, after⟩ := h _ (shows.popped rest)
  exact shows.passes frames performed after

theorem Runs.of_does {f : Frame} {rest : List Frame} (frames : v.frames = f :: rest)
    (h : Does c { v with frames := rest } (proceedWith f v.signal) v'.signal
      { v' with signal := v.signal }) : Runs c v v' := by
  refine .of_perform frames fun w shows => ?_
  obtain ⟨w', did, shows'⟩ := h w shows
  exact ⟨w', perform_of_ok did, shows'⟩

/-- The same where it is known what the frame does with the signal. -/
theorem Runs.of_act {f : Frame} {rest : List Frame} {act : Act Signal}
    (frames : v.frames = f :: rest) (goes : proceedWith f v.signal = act)
    (h : Does c { v with frames := rest } act v'.signal { v' with signal := v.signal }) :
    Runs c v v' :=
  .of_does frames (goes.symm ▸ h)

end Fibers.Script
