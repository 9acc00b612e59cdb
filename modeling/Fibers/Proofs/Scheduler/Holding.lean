import Fibers.Proofs.Fiber.Pairs
import Fibers.Proofs.Scheduler.Reentry

/-!
Fibers in the hands of run loops, on however many threads. `World.Fit` is what the fibers of all
threads owe each other; what a thread does by resuming and handing back keeps it. Whoever has
handles may end fibers by letting go of them: `Outside` is what that does to a world in which other
handles are held by others, and letting go of handles in a run loop is an instance of it.
-/

namespace Fibers

variable {β : Type}

namespace FiberRecord

/-- The record of a fiber after some of its handles were let go of, if it is still there. -/
def lessen (r : FiberRecord β) (n : Nat) : Option (FiberRecord β) :=
  if n = 0 ∨ n < r.handles then some { r with handles := r.handles - n } else none

theorem lessen_one (r : FiberRecord β) (n : Nat) :
    (r.lessen 1).bind (·.lessen n) = r.lessen (n + 1) := by
  unfold lessen
  by_cases several : 1 < r.handles
  · rw [if_pos (.inr several), Option.bind_some]
    by_cases more : n + 1 < r.handles
    · have more' : n < r.handles - 1 := by omega
      rw [if_pos (.inr more'), if_pos (.inr more)]
      have left : r.handles - 1 - n = r.handles - (n + 1) := by omega
      simp only [left]
    · have few : ¬(n = 0 ∨ n < r.handles - 1) := by omega
      rw [if_neg few, if_neg (by omega)]
  · rw [if_neg (by omega), if_neg (by omega)]
    rfl

end FiberRecord

namespace FiberTable

/-- The handles of a fiber; one that does not exist has none. -/
def handlesOf (t : FiberTable β) (id : FiberId) : Nat := ((t.get? id).map (·.handles)).getD 0

theorem handlesOf_of_get? {t : FiberTable β} {id : FiberId} {r : FiberRecord β}
    (found : t.get? id = some r) : t.handlesOf id = r.handles := by
  rw [handlesOf, found]
  rfl

theorem exists_of_handlesOf {t : FiberTable β} {id : FiberId} (held : 0 < t.handlesOf id) :
    ∃ r, t.get? id = some r ∧ t.handlesOf id = r.handles := by
  cases found : t.get? id with
  | none => simp [handlesOf, found] at held
  | some r => exact ⟨r, rfl, handlesOf_of_get? found⟩

/-- A resume of the fiber that is let through is of one that waits for no other. -/
def Approachable (t : FiberTable β) (current : Option FiberId) (target : FiberId) : Prop :=
  ∀ hasScheduler tr, t.resume current target hasScheduler = .ok tr →
    ∀ r, t.get? target = some r → r.awaiting = none

/-- What the holders of handles can rely on: their fibers are there, and who has ended stays so. -/
def Keeps (held : List FiberId) (t t' : FiberTable β) : Prop :=
  ∀ id r, 0 < held.count id → t.get? id = some r →
    ∃ r', t'.get? id = some r' ∧ r'.isMain = r.isMain ∧ held.count id ≤ r'.handles ∧
      (r.state.isTerminal = true → r'.state = r.state)

theorem Evolves.keeps {held : List FiberId} {t t' : FiberTable β}
    (h : t.Evolves t') (covered : ∀ id, held.count id ≤ t.handlesOf id) : t.Keeps held t' := by
  intro id r _ hr
  obtain ⟨r', hr', evolves⟩ := h id r hr
  refine ⟨r', hr', evolves.main, ?_, fun ended => by rw [evolves.ended ended]⟩
  rw [evolves.handles, ← handlesOf_of_get? hr]
  exact covered id

/-- The handles that were counted on are there afterwards. -/
theorem Keeps.covered {held : List FiberId} {t t' : FiberTable β} (h : t.Keeps held t')
    (covered : ∀ id, held.count id ≤ t.handlesOf id) (id : FiberId) :
    held.count id ≤ t'.handlesOf id := by
  by_cases none : held.count id = 0
  · omega
  · have claimed : 0 < held.count id := Nat.pos_of_ne_zero none
    obtain ⟨r, hr, _⟩ := exists_of_handlesOf (Nat.lt_of_lt_of_le claimed (covered id))
    obtain ⟨r', hr', _, enough, _⟩ := h id r claimed hr
    rw [handlesOf_of_get? hr']
    exact enough

end FiberTable

/-- The first element with a property, and the others. -/
theorem perm_eraseP {α : Type} {p : α → Bool} {l : List α} {a : α} (found : l.find? p = some a) :
    l.Perm (a :: l.eraseP p) := by
  obtain ⟨able, before, after, rfl, unable⟩ := List.find?_eq_some_iff_append.mp found
  have left : ∀ b ∈ before, ¬p b = true := fun b mem => by simpa using unable b mem
  rw [List.eraseP_append_right _ left, List.eraseP_cons_of_pos able]
  exact List.perm_middle

namespace TaskQueue

theorem scan_spec (running : FiberId → Bool) (worker : Nat) (skipped : Bool) (q : TaskQueue β) :
    (scan running worker skipped q).entry = List.find? (eligible running worker) q ∧
      (scan running worker skipped q).rest = List.eraseP (eligible running worker) q := by
  induction q generalizing skipped with
  | nil => exact ⟨rfl, rfl⟩
  | cons e q ih =>
    cases able : eligible running worker e with
    | true => simp [scan, able]
    | false => simp [scan, able, ih]

/-- A worker may take an entry that is not pinned elsewhere and whose fiber is not in execution. -/
theorem eligible_iff {running : FiberId → Bool} {worker : Nat} {e : QueueEntry β} :
    eligible running worker e = true ↔ (∀ k, e.worker = some k → k = worker) ∧
      ∀ id, e.task = .fiber id → running id = false := by
  obtain ⟨task, pinned⟩ := e
  rw [eligible, Bool.and_eq_true]
  refine and_congr ?_ ?_
  · cases pinned <;> simp
  · cases task <;> simp

end TaskQueue

namespace Script

variable {w w' v : World} {s : SchedulerId} {c x id : FiberId}

/-- The fibers that the threads are on. -/
def World.aboard (w : World) (i : ThreadId) : Option FiberId := (w.threads.get? i).bind (·.current)

def World.queueOf (w : World) (s : SchedulerId) : Option (TaskQueue Body) :=
  (w.schedulers.get? s).map (·.shared.queue)

theorem World.HasThread.aboard (h : w.HasThread) : w.aboard w.running = w.thread.current := by
  rw [World.aboard, h.get?]
  rfl

/-- Neither fibers nor threads nor queues tell two worlds apart. -/
structure Even (w w' : World) : Prop extends Untouched w w' where
  queueOf : ∀ s, w'.queueOf s = w.queueOf s

namespace Even

theorem refl (w : World) : Even w w := ⟨⟨rfl, rfl, rfl, rfl⟩, fun _ => rfl⟩

theorem trans {u : World} (h : Even u v) (k : Even v w) : Even u w where
  fibers := k.fibers.trans h.fibers
  saved := k.saved.trans h.saved
  threads := k.threads.trans h.threads
  running := k.running.trans h.running
  queueOf s := (k.queueOf s).trans (h.queueOf s)

theorem kernel (w : World) (k : Kernel.State) : Even w { w with kernel := k } :=
  ⟨⟨rfl, rfl, rfl, rfl⟩, fun _ => rfl⟩

/-- A change of a scheduler other than of its queue. -/
theorem modify (s : SchedulerId) (w : World) {k : SchedulerRecord → SchedulerRecord}
    (queue : ∀ r, (k r).shared.queue = r.shared.queue) :
    Even w { w with schedulers := w.schedulers.modify s k } := by
  refine ⟨⟨rfl, rfl, rfl, rfl⟩, fun j => ?_⟩
  unfold World.queueOf
  dsimp only
  rw [Table.get?_modify]
  split
  · rw [Option.map_map]
    congr 1
    funext r
    exact queue r
  · rfl

end Even

theorem Quiet.even (h : Quiet w w') : Even w w' := by
  obtain ⟨_, _, _, rfl, _⟩ := h
  exact ⟨⟨rfl, rfl, rfl, rfl⟩, fun _ => rfl⟩

theorem tickle_even (s : SchedulerId) (w : World) :
    ∃ w', (tickle s).on w = (.ok (), w') ∧ Even w w' := by
  rw [tickle, Act.on_bind_ok (schedulerRecord_on s w)]
  split
  · exact ⟨_, updateScheduler_on s _ w, .modify s w fun _ => rfl⟩
  · exact ⟨_, updateScheduler_on s _ w, .modify s w fun _ => rfl⟩
  · rw [Act.on_bind_get]
    split
    · next r _ =>
      have woken := Even.kernel w (w.kernel.wake r.epoll).1
      rw [wakePoller, Act.on_bind_ok (kernel_on _ w)]
      split
      · exact ⟨_, Act.on_pure _ _, woken⟩
      · obtain ⟨w', logged, quiet⟩ :=
          log_quiet .error _ { w with kernel := (w.kernel.wake r.epoll).1 }
        exact ⟨w', logged, woken.trans quiet.even⟩
    · exact ⟨w, rfl, .refl w⟩

/-- Another queue for one scheduler, and whether or not a worker of it is woken. -/
theorem requeue_on (s : SchedulerId) (wake : Bool) (w : World) {q q' : TaskQueue Body}
    {k : SchedulerRecord → SchedulerRecord} (known : w.queueOf s = some q)
    (queue : ∀ r, (k r).shared.queue = q') :
    ∃ w', (if wake then tickle s else pure () : Act Unit).on
        { w with schedulers := w.schedulers.modify s k } = (.ok (), w') ∧
      Untouched w w' ∧ w'.queueOf s = some q' := by
  let v : World := { w with schedulers := w.schedulers.modify s k }
  have changed : v.queueOf s = some q' := by
    obtain ⟨r, hr, -⟩ := Option.map_eq_some_iff.mp known
    change Option.map _ ((w.schedulers.modify s k).get? s) = _
    rw [Table.get?_modify, if_pos rfl, hr]
    exact congrArg some (queue r)
  cases wake with
  | false => exact ⟨v, rfl, ⟨rfl, rfl, rfl, rfl⟩, changed⟩
  | true =>
    obtain ⟨w', woken, even⟩ := tickle_even s v
    exact ⟨w', woken, ⟨even.fibers, even.saved, even.threads, even.running⟩,
      (even.queueOf s).trans changed⟩

theorem record_of_queue {q : TaskQueue Body} (known : w.queueOf s = some q) :
    ((w.schedulers.get? s).getD default).shared.queue = q := by
  obtain ⟨r, hr, rfl⟩ := Option.map_eq_some_iff.mp known
  rw [hr]
  rfl

theorem enqueue_to {q : TaskQueue Body} (known : w.queueOf s = some q)
    (entries : List (QueueEntry Body)) :
    ∃ w', (enqueue s entries).on w = (.ok (), w') ∧ Untouched w w' ∧
      w'.queueOf s = some (q ++ entries) := by
  rw [enqueue_eq]
  refine requeue_on s _ w known fun r => ?_
  change ((w.schedulers.get? s).getD default).shared.queue ++ entries = _
  rw [record_of_queue known]

/-- A fiber that is in execution. -/
def World.isRunning (w : World) (id : FiberId) : Bool := w.fibers.state id == .exec

theorem takeNext_from {q : TaskQueue Body} (known : w.queueOf s = some q) (worker : Nat) :
    ∃ w', (takeNext s worker).on w =
        (.ok (List.find? (TaskQueue.eligible w.isRunning worker) q), w') ∧
      Untouched w w' ∧
      w'.queueOf s = some (List.eraseP (TaskQueue.eligible w.isRunning worker) q) := by
  let taken := ((w.schedulers.get? s).getD default).shared.take w.isRunning worker
  have scanned := TaskQueue.scan_spec w.isRunning worker false q
  have entry : taken.entry = List.find? (TaskQueue.eligible w.isRunning worker) q := by
    change (TaskQueue.takeNext _ _ ((w.schedulers.get? s).getD default).shared.queue).entry = _
    rw [record_of_queue known]
    exact scanned.1
  have rest : taken.shared.queue = List.eraseP (TaskQueue.eligible w.isRunning worker) q := by
    change (TaskQueue.takeNext _ _ ((w.schedulers.get? s).getD default).shared.queue).rest = _
    rw [record_of_queue known]
    exact scanned.2
  obtain ⟨w', done, untouched, queue⟩ := requeue_on s taken.wake w known
    (k := fun r => { r with shared := taken.shared }) fun _ => rest
  refine ⟨w', ?_, untouched, queue⟩
  rw [takeNext, Act.on_bind_get, Act.on_bind_ok (schedulerRecord_on s w),
    Act.on_bind_ok (updateShared_on s _ w)]
  refine (Act.on_when done).trans ?_
  rw [← entry]
  rfl

/-- What the fibers and the threads that are on them owe each other. -/
structure World.Fit (w : World) : Prop where
  thread : w.HasThread
  staffed : w.fibers.Staffed w.aboard

theorem aboard_of_threads (threads : w'.threads = w.threads) : w'.aboard = w.aboard := by
  unfold World.aboard
  rw [threads]

theorem World.Fit.untouched (h : w.Fit) (same : Untouched w w') : w'.Fit where
  thread := by
    rw [World.HasThread, same.threads, same.running]
    exact h.thread
  staffed := by
    rw [same.fibers, aboard_of_threads same.threads]
    exact h.staffed

theorem aboard_modify (w' : World) {k : Thread → Thread} (h : w.HasThread)
    (threads : w'.threads = w.threads.modify w.running k) :
    w'.aboard = Function.update w.aboard w.running (k w.thread).current := by
  funext i
  unfold World.aboard
  rw [threads, Table.get?_modify]
  by_cases hi : i = w.running
  · rw [if_pos hi, hi, h.get?, Function.update_self]
    rfl
  · rw [if_neg hi, Function.update_of_ne hi]

theorem pushed_aboard (h : w.HasThread) (f : Frame) : (w.pushed f).aboard = w.aboard := by
  rw [aboard_modify (w.pushed f) (k := fun t => { t with frames := f :: t.frames }) h rfl]
  exact (congrArg _ h.aboard.symm).trans (Function.update_eq_self _ _)

theorem World.Fit.pushed (h : w.Fit) (f : Frame) : (w.pushed f).Fit where
  thread := (pushed_thread h.thread f).1
  staffed := by
    rw [pushed_aboard h.thread]
    exact h.staffed

/-- A thread has moved to another fiber. -/
theorem World.Fit.followed (h : w.Fit) {tr : FiberTable.Transfer Body}
    (moved : tr.fibers.Staffed (Function.update w.aboard w.running (some tr.target))) :
    (w.followed tr).Fit where
  thread := (followed_thread h.thread tr).1
  staffed := by
    rw [aboard_modify (w.followed tr)
      (k := fun t => t.followed tr ((w.saved.get? tr.target).getD [])) h.thread rfl]
    exact moved

/-- Neither rule of resets forbids a reset of a fiber that has ended. -/
theorem resetFiber_of_ended (h : w.Fit) {r : FiberRecord Body} (hr : w.fibers.get? id = some r)
    (ended : r.state.isTerminal = true) (own : r.isMain = false) (body : Body) :
    (resetFiber id body).on w = (.ok (), w.restarted id body) := by
  have resettable : r.state.isResettable = true := by
    cases hs : r.state <;> rw [hs] at ended <;> first | rfl | cases ended
  have lawful : w.fibers.resetFault? id = none := by
    rw [FiberTable.resetFault?, hr]
    dsimp only
    rw [resettable, own]
    rfl
  have ok : w.fibers.reset id body = .ok (w.fibers.restarted id body) := by
    rw [FiberTable.reset, lawful]
    rfl
  refine resetFiber_on ok fun q b hq hb => ?_
  obtain rfl := Option.some.inj (hr.symm.trans hq)
  exact nomatch (h.staffed.begun id r hr ended).symm.trans hb

/-- What code does that holds no more than the handles besides `held`: it takes and drops handles,
and ends with the last handle a fiber that is in no resume and that no thread is on. -/
structure Outside (held : List FiberId) (w w' : World) : Prop where
  fibers : ∀ id r, w.fibers.get? id = some r →
    (∃ n, held.count id ≤ n ∧ w'.fibers.get? id = some { r with handles := n }) ∨
    (w'.fibers.get? id = none ∧ held.count id = 0 ∧ r.resumer = none ∧ r.awaiting = none ∧
      ∀ i, w'.aboard i ≠ some id)
  none : ∀ id, w.fibers.get? id = none → w'.fibers.get? id = none
  lastId : w'.fibers.lastId = w.fibers.lastId
  thread : w'.HasThread
  aboard : ∀ i, w'.aboard i = w.aboard i ∨ w'.aboard i = Option.none

namespace Outside

variable {held : List FiberId}

theorem keeps (h : Outside held w w') : w.fibers.Keeps held w'.fibers := by
  intro id r claimed hr
  rcases h.fibers id r hr with ⟨n, covered, hr'⟩ | ⟨_, unclaimed, _⟩
  · exact ⟨_, hr', rfl, covered, fun _ => rfl⟩
  · omega

/-- A record that is left is the one that was there, but for the handles. -/
theorem back (h : Outside held w w') {id : FiberId} {r' : FiberRecord Body}
    (hr' : w'.fibers.get? id = some r') :
    ∃ r, w.fibers.get? id = some r ∧ r' = { r with handles := r'.handles } := by
  cases hr : w.fibers.get? id with
  | none => exact nomatch hr'.symm.trans (h.none id hr)
  | some r =>
    refine ⟨r, rfl, ?_⟩
    rcases h.fibers id r hr with ⟨n, _, known⟩ | ⟨gone, _⟩
    · obtain rfl := Option.some.inj (hr'.symm.trans known)
      rfl
    · exact nomatch hr'.symm.trans gone

theorem fit (h : Outside held w w') (fit : w.Fit) : w'.Fit where
  thread := h.thread
  staffed := by
    have fewer : ∀ id, w'.fibers.standing id = w.fibers.standing id ∨
        w'.fibers.standing id = Option.none ∧ ∀ s, w.fibers.standing id = some s →
          s.resumer = Option.none ∧ s.awaiting = Option.none := by
      intro id
      unfold FiberTable.standing
      cases hr : w.fibers.get? id with
      | none => exact .inl (by rw [h.none id hr])
      | some r =>
        rcases h.fibers id r hr with ⟨n, _, known⟩ | ⟨gone, _, resumer, awaiting, _⟩
        · exact .inl (by rw [known]; rfl)
        · refine .inr ⟨by rw [gone]; rfl, fun s hs => ?_⟩
          obtain rfl := Option.some.inj hs
          exact ⟨resumer, awaiting⟩
    have earlier : ∀ {i d}, w'.aboard i = some d → w.aboard i = some d := by
      intro i d hd
      rcases h.aboard i with same | gone
      · rwa [same] at hd
      · exact nomatch hd.symm.trans gone
    refine ⟨fit.staffed.toPaired.of_fewer h.lastId fewer, fun i d hd => ?_, fun i j d hi hj => ?_,
      fun id r' hr' ended => ?_⟩
    · obtain ⟨q, hq, runs⟩ := fit.staffed.running i d (earlier hd)
      refine ⟨q, ?_, runs⟩
      obtain ⟨r, hr, rfl⟩ := FiberTable.get?_of_standing hq
      rcases h.fibers d r hr with ⟨n, _, known⟩ | ⟨_, _, _, _, off⟩
      · exact (congrArg (Option.map FiberRecord.standing) known).trans rfl
      · exact absurd hd (off i)
    · exact fit.staffed.apart i j d (earlier hi) (earlier hj)
    · obtain ⟨r, hr, same⟩ := h.back hr'
      rw [same] at ended ⊢
      exact fit.staffed.begun id r hr ended

end Outside

/-- Handles of fibers were let go of. -/
structure Lets (ids : List FiberId) (w w' : World) : Prop where
  fibers : ∀ j, w'.fibers.get? j = (w.fibers.get? j).bind (FiberRecord.lessen · (ids.count j))
  lastId : w'.fibers.lastId = w.fibers.lastId
  saved : ∀ j, w'.fibers.get? j ≠ none → w'.saved.get? j = w.saved.get? j
  threads : w'.threads = w.threads
  running : w'.running = w.running
  schedulers : w'.schedulers = w.schedulers

theorem Lets.refl (w : World) : Lets [] w w :=
  ⟨fun j => by cases w.fibers.get? j <;> rfl, rfl, fun _ _ => rfl, rfl, rfl, rfl⟩

theorem Lets.cons {ids : List FiberId} (h : Lets [id] w v) (k : Lets ids v w') :
    Lets (id :: ids) w w' where
  fibers j := by
    rw [k.fibers, h.fibers]
    by_cases hj : id = j
    · subst hj
      rw [List.count_singleton_self, List.count_cons_self]
      cases w.fibers.get? id with
      | none => rfl
      | some r => exact r.lessen_one _
    · rw [List.count_cons_of_ne hj, List.count_cons_of_ne hj, List.count_nil]
      cases w.fibers.get? j <;> rfl
  lastId := k.lastId.trans h.lastId
  saved j there := by
    refine (k.saved j there).trans (h.saved j fun gone => there ?_)
    rw [k.fibers, gone]
    rfl
  threads := k.threads.trans h.threads
  running := k.running.trans h.running
  schedulers := k.schedulers.trans h.schedulers

theorem Lets.queueOf {ids : List FiberId} (h : Lets ids w w') (s : SchedulerId) :
    w'.queueOf s = w.queueOf s := by
  rw [World.queueOf, h.schedulers]
  rfl

/-- Nothing but the kernel and the log tells two worlds apart. -/
structure Level (w w' : World) : Prop extends Untouched w w' where
  schedulers : w'.schedulers = w.schedulers

namespace Level

theorem refl (w : World) : Level w w := ⟨⟨rfl, rfl, rfl, rfl⟩, rfl⟩

theorem trans (h : Level w v) (k : Level v w') : Level w w' where
  fibers := k.fibers.trans h.fibers
  saved := k.saved.trans h.saved
  threads := k.threads.trans h.threads
  running := k.running.trans h.running
  schedulers := k.schedulers.trans h.schedulers

theorem even (h : Level w w') : Even w w' := by
  refine ⟨h.toUntouched, fun s => ?_⟩
  rw [World.queueOf, h.schedulers]
  rfl

end Level

theorem Quiet.level (h : Quiet w w') : Level w w' := ⟨h.untouched, h.schedulers⟩

theorem unmapStack_level (w : World) :
    ∃ w', unmapStack.on w = (.ok (), w') ∧ Level w w' := by
  have unmapped : Level w { w with kernel := w.kernel.unmapStack.1 } := ⟨⟨rfl, rfl, rfl, rfl⟩, rfl⟩
  rw [unmapStack, Act.on_bind_ok (kernel_on _ w)]
  split
  · obtain ⟨w', logged, quiet⟩ := log_quiet .error _ { w with kernel := w.kernel.unmapStack.1 }
    exact ⟨w', logged, unmapped.trans quiet.level⟩
  · exact ⟨_, rfl, unmapped⟩

theorem when_level {act : Act Unit} {w : World} (b : Prop) [Decidable b]
    (h : ∃ w', act.on w = (.ok (), w') ∧ Level w w') :
    ∃ w', (if b then act else pure ()).on w = (.ok (), w') ∧ Level w w' := by
  split
  · exact h
  · exact ⟨w, rfl, .refl w⟩

/-- The last handle of a fiber that holds no body. -/
theorem endFiber_lets {r : FiberRecord Body} (hr : w.fibers.get? id = some r)
    (last : r.handles ≤ 1) (body : r.entry = none) :
    ∃ w', (endFiber id r).on w = (.ok [], w') ∧ Lets [id] w w' := by
  let u : World := { w with fibers := { w.fibers with live := w.fibers.live - 1 } }
  obtain ⟨v, warned, level⟩ := when_level (w := u) (r.leaks = true)
    (by
      obtain ⟨v, logged, quiet⟩ := log_quiet .warn
        s!"fiber {id.render} dropped in state {r.state.render}; its stack frames are leaked" u
      exact ⟨v, logged, quiet.level⟩)
  obtain ⟨y, unmapped, level'⟩ := when_level ((!r.isMain) = true) (unmapStack_level v)
  let w' : World :=
    { y with
      fibers := { y.fibers with records := y.fibers.records.erase id }
      saved := y.saved.erase id }
  have same : Level u y := level.trans level'
  have left : ∀ j, (y.fibers.records.erase id).get? j = if j = id then none
      else w.fibers.get? j := by
    intro j
    rw [Table.get?_erase]
    congr 1
    exact (congrArg (fun t : FiberTable Body => t.get? j) same.fibers).trans rfl
  refine ⟨w', ?_, ⟨fun j => (left j).trans ?_, ?_, fun j there => ?_, same.threads, same.running,
    same.schedulers⟩⟩
  · rw [endFiber, Act.on_bind_modify]
    refine (Act.on_when warned).trans ((Act.on_when unmapped).trans ?_)
    rw [body]
    rfl
  · by_cases hj : j = id
    · subst hj
      rw [if_pos rfl, hr, Option.bind_some, List.count_singleton_self, FiberRecord.lessen,
        if_neg (by omega)]
    · rw [if_neg hj, List.count_cons_of_ne (Ne.symm hj), List.count_nil]
      cases w.fibers.get? j <;> rfl
  · exact (congrArg FiberTable.lastId same.fibers).trans rfl
  · have other : j ≠ id := fun e => there ((left j).trans (if_pos e))
    change (y.saved.erase id).get? j = _
    rw [Table.get?_erase, if_neg other, same.saved]

theorem releaseOne_lets (id : FiberId) (w : World)
    (body : ∀ r, w.fibers.get? id = some r → r.entry = none ∨ 1 < r.handles) :
    ∃ w', (releaseOne (.fiber id)).on w = (.ok [], w') ∧ Lets [id] w w' := by
  have others : ∀ j, j ≠ id →
      w.fibers.get? j = (w.fibers.get? j).bind (FiberRecord.lessen · ([id].count j)) := by
    intro j hj
    rw [List.count_cons_of_ne (Ne.symm hj), List.count_nil]
    cases w.fibers.get? j <;> rfl
  rw [releaseOne, Act.on_bind_get]
  dsimp only
  split
  · next gone =>
    refine ⟨w, rfl, fun j => ?_, rfl, fun _ _ => rfl, rfl, rfl, rfl⟩
    by_cases hj : j = id
    · rw [hj, gone]
      rfl
    · exact others j hj
  · next r hr =>
    split
    · next several =>
      refine ⟨_, rfl, fun j => ?_, rfl, fun _ _ => rfl, rfl, rfl, rfl⟩
      change (w.fibers.modify id _).get? j = _
      rw [FiberTable.get?_modify]
      by_cases hj : j = id
      · subst hj
        rw [if_pos rfl, hr, Option.bind_some, List.count_singleton_self, FiberRecord.lessen,
          if_pos (.inr several)]
        rfl
      · rw [if_neg hj]
        exact others j hj
    · next few => exact endFiber_lets hr (Nat.not_lt.mp few) ((body r hr).resolve_right few)

theorem releaseUpTo_lets {n : Nat} (ids : List FiberId) (enough : ids.length ≤ n) (w : World)
    (body : ∀ id ∈ ids, ∀ r, w.fibers.get? id = some r →
      r.entry = none ∨ ids.count id < r.handles) :
    ∃ w', (releaseUpTo n (ids.map .fiber)).on w = (.ok (), w') ∧ Lets ids w w' := by
  induction ids generalizing n w with
  | nil =>
    rw [List.map_nil, releaseUpTo_nil]
    exact ⟨w, rfl, .refl w⟩
  | cons id ids ih =>
    obtain ⟨n, rfl⟩ : ∃ m, n = m + 1 := Nat.exists_eq_add_one.mpr (by simp at enough; omega)
    obtain ⟨v, first, lets⟩ := releaseOne_lets id w fun r hr => by
      refine (body id List.mem_cons_self r hr).imp_right fun spare => ?_
      rw [List.count_cons_self] at spare
      omega
    have bodies : ∀ j ∈ ids, ∀ r, v.fibers.get? j = some r →
        r.entry = none ∨ ids.count j < r.handles := by
      intro j mem r hr
      rw [lets.fibers] at hr
      obtain ⟨q, hq, lessened⟩ := Option.bind_eq_some_iff.mp hr
      unfold FiberRecord.lessen at lessened
      split at lessened
      · obtain rfl := Option.some.inj lessened
        refine (body j (List.mem_cons_of_mem _ mem) q hq).imp_right fun spare => ?_
        rw [List.count_cons] at spare
        rw [List.count_cons, List.count_nil]
        dsimp only
        omega
      · cases lessened
    obtain ⟨w', rest, lets'⟩ := ih (by simpa using enough) v bodies
    exact ⟨w', (Act.on_bind_ok first).trans rest, lets.cons lets'⟩

/-- The fuel of a release is enough. -/
theorem release_lets (ids : List FiberId) (w : World)
    (body : ∀ id ∈ ids, ∀ r, w.fibers.get? id = some r →
      r.entry = none ∨ ids.count id < r.handles) :
    ∃ w', (release (ids.map .fiber)).on w = (.ok (), w') ∧ Lets ids w w' := by
  have fuel : ids.length ≤ w.handleCount + (ids.map Handle.fiber).length := by
    rw [List.length_map]
    exact Nat.le_add_left _ _
  obtain ⟨w', released, lets⟩ := releaseUpTo_lets ids fuel w body
  exact ⟨w', by rw [release, Act.on_bind_get]; exact released, lets⟩

/-- Handles of fibers that are in no resume or have handles to spare were let go of by whoever held
them. -/
theorem Lets.outside {held ids : List FiberId} (lets : Lets ids w w') (h : w.Fit)
    (covered : ∀ id, held.count id + ids.count id ≤ w.fibers.handlesOf id)
    (calm : ∀ id ∈ ids, ∀ r, w.fibers.get? id = some r →
      ids.count id < r.handles ∨ r.state ≠ .exec ∧ r.awaiting = none) :
    Outside held w w' := by
  have aboard := aboard_of_threads lets.threads
  refine ⟨fun id r hr => ?_, fun id gone => ?_, lets.lastId, ?_, fun i => .inl (by rw [aboard])⟩
  · have covered := covered id
    rw [FiberTable.handlesOf_of_get? hr] at covered
    have after := lets.fibers id
    rw [hr, Option.bind_some] at after
    by_cases stays : ids.count id = 0 ∨ ids.count id < r.handles
    · rw [FiberRecord.lessen, if_pos stays] at after
      exact .inl ⟨_, by omega, after⟩
    · have mem : id ∈ ids := List.count_pos_iff.mp (by omega)
      rcases calm id mem r hr with spare | ⟨still, free⟩
      · omega
      · rw [FiberRecord.lessen, if_neg stays] at after
        have known : w.fibers.standing id = some r.standing := congrArg (Option.map _) hr
        refine .inr ⟨after, by omega, h.staffed.unresumed known still free, free, fun i hi => ?_⟩
        rw [aboard] at hi
        obtain ⟨q, hq, exec, _⟩ := h.staffed.running i id hi
        obtain rfl := Option.some.inj (known.symm.trans hq)
        exact still exec
  · rw [lets.fibers, gone]
    rfl
  · rw [World.HasThread, lets.threads, lets.running]
    exact h.thread

/-- To let go of handles of fibers that hold no body, and that are in no resume or have handles to
spare, is a matter of whoever held them. -/
theorem release_outside {held ids : List FiberId} (h : w.Fit)
    (covered : ∀ id, held.count id + ids.count id ≤ w.fibers.handlesOf id)
    (calm : ∀ id ∈ ids, ∀ r, w.fibers.get? id = some r → r.entry = none ∧
      (held.count id + ids.count id < r.handles ∨ r.state ≠ .exec ∧ r.awaiting = none)) :
    ∃ w', (release (ids.map .fiber)).on w = (.ok (), w') ∧ Outside held w w' ∧
      ∀ s, w'.queueOf s = w.queueOf s := by
  obtain ⟨w', released, lets⟩ := release_lets ids w fun id mem r hr => .inl (calm id mem r hr).1
  refine ⟨w', released, lets.outside h covered fun id mem r hr => ?_, lets.queueOf⟩
  exact (calm id mem r hr).2.imp_left fun spare => by omega

/-- Fibers were resumed and handed back, or made. -/
structure Onward (w w' : World) : Prop where
  fit : w'.Fit
  evolves : w.fibers.Evolves w'.fibers
  queueOf : ∀ s, w'.queueOf s = w.queueOf s

namespace Onward

theorem of_same (h : w.Fit) (fibers : w'.fibers = w.fibers) (aboard : w'.aboard = w.aboard)
    (thread : w'.HasThread) (queueOf : ∀ s, w'.queueOf s = w.queueOf s) : Onward w w' where
  fit := ⟨thread, by rw [fibers, aboard]; exact h.staffed⟩
  evolves id r hr := ⟨r, by rw [fibers, hr], .refl r⟩
  queueOf := queueOf

theorem even (h : w.Fit) (same : Even w w') : Onward w w' :=
  .of_same h same.fibers (aboard_of_threads same.threads) (h.untouched same.toUntouched).thread
    same.queueOf

theorem quiet (h : w.Fit) (quiet : Quiet w w') : Onward w w' := .even h quiet.even

theorem pushed (h : w.Fit) (f : Frame) : Onward w (w.pushed f) :=
  .of_same h rfl (pushed_aboard h.thread f) (h.pushed f).thread fun _ => rfl

theorem trans (h : Onward w v) (k : Onward v w') : Onward w w' where
  fit := k.fit
  evolves := h.evolves.trans k.evolves
  queueOf s := (k.queueOf s).trans (h.queueOf s)

theorem followed (h : w.Fit) {tr : FiberTable.Transfer Body}
    (moved : tr.fibers.Staffed (Function.update w.aboard w.running (some tr.target)))
    (evolves : w.fibers.Evolves tr.fibers) : Onward w (w.followed tr) :=
  ⟨h.followed moved, evolves, fun _ => rfl⟩

theorem withFiber (h : w.Fit) (body : Body) (stack : Nat) (inScheduler : Bool) :
    Onward w (w.withFiber body stack inScheduler) where
  fit := ⟨h.thread, h.staffed.add _ rfl rfl rfl⟩
  evolves := .add h.staffed.numbered _
  queueOf _ := rfl

/-- A fiber begins: it takes its body out. -/
theorem entered (h : w.Fit) (current : w.thread.current = some c) : Onward w (w.entered c) := by
  obtain ⟨staffed, evolves⟩ := h.staffed.takeEntry
    (h.staffed.running _ c (h.thread.aboard.trans current))
  exact ⟨⟨h.thread, staffed⟩, evolves, fun _ => rfl⟩

end Onward

theorem makeFiber_of_stack {size usable : Nat}
    (stack : (w.kernel.mapStack size).2 = .ok usable) (body : Body) (inScheduler : Bool) :
    ∃ w', (makeFiber body size inScheduler).on w = (.ok (.ok ⟨w.fibers.lastId + 1⟩), w') ∧
      Quiet ({ w with kernel := (w.kernel.mapStack size).1 }.withFiber body usable inScheduler)
        w' := by
  let v : World := { w with kernel := (w.kernel.mapStack size).1 }
  have mapped : (mapStack size).on w = (.ok (.ok usable), v) := by
    rw [mapStack, Act.on_bind_ok (kernel_on _ w), stack]
    rfl
  obtain ⟨w', logged, quiet⟩ := log_quiet .debug
    s!"fiber {(FiberId.mk (w.fibers.lastId + 1)).render} created"
    (v.withFiber body usable inScheduler)
  refine ⟨w', ?_, quiet⟩
  rw [makeFiber, Act.on_bind_ok mapped, Act.on_bind_get, Act.on_bind_modify]
  exact Act.on_bind_ok logged

/-- A body that finds no stack is dropped. -/
theorem makeFiber_of_none {size : Nat} {e : OsError}
    (stack : (w.kernel.mapStack size).2 = .error e) (body : Body) (inScheduler : Bool) :
    ∃ x w', (makeFiber body size inScheduler).on w = (.ok (.error x), w') := by
  have mapped : ∃ x v, (mapStack size).on w = (.ok (.error x), v) := by
    rw [mapStack, Act.on_bind_ok (kernel_on _ w), stack]
    obtain ⟨v, logged, _⟩ := log_quiet .error
      s!"fiber stack allocation of {size} bytes failed: {e.render}"
      { w with kernel := (w.kernel.mapStack size).1 }
    exact ⟨_, v, Act.on_bind_ok logged⟩
  obtain ⟨x, v, mapped⟩ := mapped
  obtain ⟨w', released, _⟩ := release_on (bodyHandles_free body) v
  exact ⟨x, w', by rw [makeFiber, Act.on_bind_ok mapped]; exact Act.on_bind_ok released⟩

/-- The rules of resuming say nothing of resets. -/
theorem resume_on_cases (x : FiberId) (w : World) :
    (∃ v w', (resume x).on w = (.error (.panic (.violation v)), w') ∧ Quiet w w' ∧
      ∀ n state, v ≠ .resetInState n state) ∨
    ∃ tr b, w.fibers.resume w.thread.current x b = .ok tr ∧
      (resume x).on w = (.ok (toldSignal tr.told), w.followed tr) := by
  rw [resume_on]
  cases outcome : w.fibers.resume w.thread.current x w.currentScheduler.isSome with
  | ok tr => exact .inr ⟨tr, _, outcome, follow_on tr w⟩
  | error v =>
    obtain ⟨w', rejected, quiet⟩ := followOr_error v w
    refine .inl ⟨v, w', rejected, quiet, ?_⟩
    rintro n state rfl
    unfold FiberTable.resume FiberTable.resumeFault? at outcome
    grind

theorem resume_onward (h : w.Fit) (free : w.fibers.Approachable w.thread.current x) :
    (∃ v w', (resume x).on w = (.error (.panic (.violation v)), w') ∧ Onward w w') ∨
    ∃ tr, (resume x).on w = (.ok (.done .null), w.followed tr) ∧ tr.target = x ∧
      Onward w (w.followed tr) := by
  rcases resume_on_cases x w with ⟨v, w', rejected, quiet, _⟩ | ⟨tr, b, accepted, done⟩
  · exact .inl ⟨v, w', rejected, .quiet h quiet⟩
  · rw [← h.thread.aboard] at accepted
    obtain ⟨target, told, moved, evolves⟩ :=
      h.staffed.resume accepted fun r hr => free b tr (h.thread.aboard ▸ accepted) r hr
    refine .inr ⟨tr, by rw [done, told]; rfl, target, .followed h (target ▸ moved) evolves⟩

/-- The running fiber has taken its body out. -/
def World.Begun (w : World) : Prop :=
  ∀ c r, w.thread.current = some c → w.fibers.get? c = some r → r.entry = none

theorem handBack_onward (h : w.Fit) (begun : w.Begun) (here : w.thread.current = some c)
    {left : FiberState} {tr : FiberTable.Transfer Body}
    (ok : w.fibers.handBack c left = .ok tr) : Onward w (w.followed tr) := by
  have aboard : w.aboard w.running = some c := h.thread.aboard.trans here
  obtain ⟨moved, evolves⟩ := h.staffed.handBack aboard ok fun r hr => begun c r here hr
  exact .followed h moved evolves

theorem yieldTo_onward (h : w.Fit) (begun : w.Begun) (left : FiberState) :
    Onward w (w.perform (yieldTo left)).2 := by
  have goes := yieldTo_on left w
  cases outcome : w.fibers.yield w.thread.current left with
  | error v =>
    obtain ⟨w', rejected, quiet⟩ := followOr_error v w
    rw [outcome, rejected] at goes
    rw [perform_of_panic goes]
    exact .quiet h quiet
  | ok tr =>
    rw [outcome] at goes
    rw [perform_of_ok (goes.trans (follow_on tr w))]
    unfold FiberTable.yield at outcome
    split at outcome
    · cases outcome
    · next c here =>
      split at outcome
      · exact handBack_onward h begun here outcome
      · cases outcome

theorem finish_onward (h : w.Fit) (begun : w.Begun) (here : w.thread.current = some c)
    (left : FiberState) : Onward w (w.perform (finish c left)).2 := by
  cases outcome : w.fibers.handBack c left with
  | ok tr =>
    rw [perform_of_ok (finish_on outcome)]
    have pushed := Onward.pushed h .fiberEnd
    have same := (pushed_thread h.thread .fiberEnd).2
    refine pushed.trans (handBack_onward pushed.fit (fun d r hd hr => ?_) ?_ outcome)
    · rw [same] at hd
      exact begun d r hd hr
    · rw [same]
      exact here
  | error v =>
    let u := w.pushed .fiberEnd
    have error : u.fibers.handBack c left = .error v := outcome
    obtain ⟨y, logged, quiet⟩ := log_quiet .error (announcement v) u
    have ends : (finish c left).on w =
        (.error (.panic .silent), { y with aborted := true }) := by
      rw [finish, Act.on_bind_ok (push_on _ w), Act.on_bind_get, error]
      exact (Act.on_bind_ok logged).trans rfl
    rw [perform_of_panic ends]
    have pushed := Onward.pushed h .fiberEnd
    have even := quiet.even
    exact pushed.trans (.even pushed.fit ⟨⟨even.fibers, even.saved, even.threads, even.running⟩,
      even.queueOf⟩)

theorem finishPanicked_onward (h : w.Fit) (begun : w.Begun) (here : w.thread.current = some c)
    (p : Panic) : Onward w (w.perform (finishPanicked c p)).2 := by
  have logs : ∀ text, ∃ v, (logError text).on w = (.ok (), v) ∧ Quiet w v := fun text =>
    log_quiet .error text w
  unfold finishPanicked
  split
  · next violation =>
    obtain ⟨v, logged, quiet⟩ :=
      logs (s!"fatal in fiber {c.render}: " ++ announcement violation)
    have ends : (logError (s!"fatal in fiber {c.render}: " ++ announcement violation) >>=
        fun _ => abort : Act Signal).on w =
          (.error (.panic .silent), { v with aborted := true }) :=
      (Act.on_bind_ok logged).trans rfl
    rw [perform_of_panic ends]
    have even := quiet.even
    exact .even h ⟨⟨even.fibers, even.saved, even.threads, even.running⟩, even.queueOf⟩
  · obtain ⟨v, logged, quiet⟩ := logs s!"fiber {c.render} panicked: {p.message}"
    have same := quiet.untouched
    have ends := finish_onward (h.untouched same)
      (fun d r hd hr => begun d r (same.thread ▸ hd) (same.fibers ▸ hr))
      (by rw [same.thread, here]) .except
    rw [perform_congr (Act.on_bind_ok logged)]
    exact (Onward.quiet h quiet).trans ends

end Script

end Fibers
