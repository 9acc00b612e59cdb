import Fibers.Proofs.Scheduler.Carrying
import Fibers.Proofs.Scheduler.Recycling

/-!
The tasks of a scheduler. `Carries` is what any number of workers do on however many threads, step
by step and in every order: they take entries, run the next stretch of a task, queue a fiber again
that is ready, keep or drop one that has ended, and account for their entries, while others hand
tasks to the scheduler. No task is lost, duplicated or overlooked by that.
-/

namespace Fibers.Script

variable {D E E' : Docket} {w w' : World} {s : SchedulerId} {l : Loop} {f : FiberId} {n : Nat}
  {rest : List Hand} {x x' : Hand}

/-- What an entry comes to that a worker has left the fiber of. -/
def Grip.aftermath (own : Bool) (state : FiberState) (pooled capacity : Nat) : Aftermath :=
  if own then .ofCallback state pooled capacity else .ofFiber state

/-- The other workers. -/
def Docket.without (D : Docket) (rest : List Hand) : Docket := { D with crew := rest }

/-- The room that the workers of a scheduler have for fibers. -/
def World.capacityOf (w : World) (s : SchedulerId) : Nat :=
  ((w.schedulers.get? s).getD default).config.pool

/-- The runs of the workers of a scheduler, with what became of the tasks. -/
inductive Carries (s : SchedulerId) : Docket → World → Prop where
  /-- The scheduler has neither workers nor tasks. -/
  | start {w : World} {y : Shared Body} (fit : w.Fit) (known : w.sharedOf s = some y)
      (queue : y.queue = []) (active : y.active = 0) : Carries s .empty w
  /-- Others do something that has nothing to do with the tasks. -/
  | elsewhere {D : Docket} {w w' : World} (run : Carries s D w) (beside : Beside D w w')
      (shared : ∀ y, w.sharedOf s = some y →
        ∃ y', w'.sharedOf s = some y' ∧ y'.queue = y.queue ∧ y'.active = y.active) :
      Carries s D w'
  /-- The scheduler is handed tasks by someone who has the handles of their fibers. -/
  | accept {D D' : Docket} {w : World} {es : List (QueueEntry Body)} (run : Carries s D w)
      (accepts : Accepts w D es D')
      (handed : ∀ f, D.held.count f + (es.filterMap QueueEntry.fiber?).count f ≤
        w.fibers.handlesOf f) :
      Carries s D' ((enqueue s es).on w).2
  /-- A worker starts, with an idle fiber that it is given. -/
  | hire {D : Docket} {w : World} {l : Loop} (run : Carries s D w) (serves : l.scheduler = s)
      (pool : l.pool = []) (handed : D.held.count l.idleFiber < w.fibers.handlesOf l.idleFiber) :
      Carries s (D.hand ⟨l, .free⟩) w
  /-- A worker ends, as its idle fiber has ended, and lets go of its fibers. -/
  | retire {D : Docket} {w : World} {l : Loop} {rest : List Hand} (run : Carries s D w)
      (worker : D.crew.Perm (⟨l, .free⟩ :: rest))
      (finished : (w.fibers.state l.idleFiber).isTerminal = true) :
      Carries s (D.without rest) ((release l.handles).on w).2
  /-- A worker finds nothing that it may take. -/
  | look {D : Docket} {w : World} {l : Loop} {rest : List Hand} (run : Carries s D w)
      (worker : D.crew.Perm (⟨l, .free⟩ :: rest)) (none : D.next w l.worker = none) :
      Carries s D ((takeNext s l.worker).on w).2
  | take {D : Docket} {w : World} {l : Loop} {rest : List Hand} {p : Nat × QueueEntry Body}
      (run : Carries s D w) (worker : D.crew.Perm (⟨l, .free⟩ :: rest))
      (found : D.next w l.worker = some p) :
      Carries s (({ D with crew := rest, posts := D.others w l.worker } : Docket).hand
        ⟨l, .took p.1 p.2⟩) ((takeNext s l.worker).on w).2
  /-- A worker resumes the fiber that it has taken. -/
  | resume {D : Docket} {w : World} {l : Loop} {rest : List Hand} {n : Nat} {f : FiberId}
      {pin : Option Nat} (run : Carries s D w)
      (worker : D.crew.Perm (⟨l, .took n ⟨.fiber f, pin⟩⟩ :: rest))
      (serves : w.currentScheduler.isSome = true) :
      Carries s ((D.without rest).begins l n f pin false (w.perform (turnFiber l f)).2)
        (w.perform (turnFiber l f)).2
  /-- A worker runs the callback that it has taken on a fiber of its pool. -/
  | reuse {D : Docket} {w : World} {l : Loop} {rest : List Hand} {n : Nat} {f : FiberId}
      {pool : List FiberId} {body : Body} {pin : Option Nat} (run : Carries s D w)
      (worker : D.crew.Perm (⟨l, .took n ⟨.callback body, pin⟩⟩ :: rest))
      (pooled : l.pool = f :: pool) (serves : w.currentScheduler.isSome = true) :
      Carries s ((D.without rest).begins { l with pool := pool } n f pin true
        (w.perform (turnCallback l body)).2) (w.perform (turnCallback l body)).2
  /-- A worker runs the callback that it has taken on a fiber that it makes. -/
  | make {D : Docket} {w : World} {l : Loop} {rest : List Hand} {n usable : Nat} {body : Body}
      {pin : Option Nat} (run : Carries s D w)
      (worker : D.crew.Perm (⟨l, .took n ⟨.callback body, pin⟩⟩ :: rest)) (none : l.pool = [])
      (stack : (w.kernel.mapStack
        ((w.schedulers.get? l.scheduler).getD default).config.stackSize).2 = .ok usable)
      (serves : w.currentScheduler.isSome = true) :
      Carries s ((D.without rest).begins l n ⟨w.fibers.lastId + 1⟩ pin true
        (w.perform (turnCallback l body)).2) (w.perform (turnCallback l body)).2
  /-- The fiber of a task leaves the thread that it runs on. -/
  | leave {D : Docket} {w : World} {l : Loop} {rest : List Hand} {n : Nat} {f : FiberId}
      {own : Bool} (run : Carries s D w) (worker : D.crew.Perm (⟨l, .runs n f own⟩ :: rest))
      (begun : w.Begun) (here : w.thread.current = some f) (departure : Departure)
      (lawful : departure.Lawful) :
      Carries s ((D.without rest).leaves l n f own departure w.thread.frames)
        (w.perform (departure.act f)).2
  /-- A worker queues a fiber again that is ready. -/
  | back {D : Docket} {w : World} {l : Loop} {rest : List Hand} {n : Nat} {f : FiberId}
      (run : Carries s D w) (worker : D.crew.Perm (⟨l, .ready n f⟩ :: rest)) :
      Carries s (({ D with crew := rest, posts := D.posts ++ [(n, ⟨.fiber f, none⟩)] } :
        Docket).hand ⟨l, .owes⟩) ((enqueue s [⟨.fiber f, none⟩]).on w).2
  /-- A worker accounts for its entry. -/
  | settle {D : Docket} {w : World} {x : Hand} {rest : List Hand} (run : Carries s D w)
      (worker : D.crew.Perm (x :: rest))
      (due : x.grip.isCounted = true ∧ x.grip.settled.isCounted = false) :
      Carries s ((D.without rest).hand ⟨x.loop, x.grip.settled⟩) ((settle s).on w).2
  /-- A worker keeps the fiber of a callback that has ended. -/
  | recycle {D : Docket} {w : World} {x : Hand} {rest : List Hand} {f : FiberId} {own : Bool}
      {state : FiberState} (run : Carries s D w) (worker : D.crew.Perm (x :: rest))
      (back : x.grip.back? = some (f, own, state))
      (after : Grip.aftermath own state x.loop.pool.length (w.capacityOf s) = .recycle) :
      Carries s ((D.without rest).hand
        ⟨{ x.loop with pool := f :: x.loop.pool }, x.grip.cleared⟩) w
  /-- A worker lets go of the fiber. -/
  | drop {D : Docket} {w : World} {x : Hand} {rest : List Hand} {f : FiberId} {own : Bool}
      {state : FiberState} (run : Carries s D w) (worker : D.crew.Perm (x :: rest))
      (back : x.grip.back? = some (f, own, state))
      (after : Grip.aftermath own state x.loop.pool.length (w.capacityOf s) = .dismiss) :
      Carries s ((D.without rest).hand ⟨x.loop, x.grip.cleared⟩) ((release [.fiber f]).on w).2

/-- What holds of a world with the docket of a scheduler. -/
structure Carried (s : SchedulerId) (D : Docket) (w : World) : Prop where
  filed : Filed D w
  serves : ∀ x ∈ D.crew, x.loop.scheduler = s
  /-- The queue is that of the tasks which wait, and what is active are entries that were taken. -/
  shared : ∃ y, w.sharedOf s = some y ∧ y.queue = D.posts.map Prod.snd ∧ y.active = D.active

theorem Docket.active_hand (E : Docket) (x : Hand) :
    (E.hand x).active = E.active + if x.grip.isCounted then 1 else 0 := List.countP_cons

namespace Carried

/-- A worker may be taken to be the first one. -/
theorem first (h : Carried s D w) (worker : D.crew.Perm (x :: rest)) :
    Carried s ((D.without rest).hand x) w := by
  refine ⟨h.filed.perm worker, fun y mem => h.serves y (worker.mem_iff.mpr mem), ?_⟩
  obtain ⟨y, known, queue, active⟩ := h.shared
  exact ⟨y, known, queue, active.trans (worker.countP_eq _)⟩

/-- What one worker does. -/
theorem does (h : Carried s (E.hand x) w) (filed : Filed (E'.hand x') w') (crew : E'.crew = E.crew)
    (scheduler : x'.loop.scheduler = x.loop.scheduler)
    (shared : ∃ y, w'.sharedOf s = some y ∧ y.queue = E'.posts.map Prod.snd ∧
      y.active = (E'.hand x').active) : Carried s (E'.hand x') w' := by
  refine ⟨filed, fun y mem => ?_, shared⟩
  rcases List.mem_cons.mp mem with rfl | mem
  · exact scheduler.trans (h.serves x List.mem_cons_self)
  · exact h.serves y (List.mem_cons_of_mem _ (crew ▸ mem))

/-- What one worker does without a look at what they share. -/
theorem keeps (h : Carried s (E.hand x) w) (filed : Filed (E'.hand x') w')
    (crew : E'.crew = E.crew) (scheduler : x'.loop.scheduler = x.loop.scheduler)
    (schedulers : w'.schedulers = w.schedulers) (posts : E'.posts = E.posts)
    (counted : x'.grip.isCounted = x.grip.isCounted) : Carried s (E'.hand x') w' := by
  obtain ⟨y, known, queue, active⟩ := h.shared
  refine h.does filed crew scheduler ⟨y, ?_, ?_, ?_⟩
  · rw [World.sharedOf, schedulers]
    exact known
  · rw [posts]
    exact queue
  · rw [active, Docket.active_hand, Docket.active_hand, counted, Docket.active, Docket.active, crew]

end Carried

/-- What a worker that looks for work does to what they share. -/
theorem taken_posts {y : Shared Body} (queue : y.queue = D.posts.map Prod.snd) (worker : Nat) :
    (y.take w.isRunning worker).shared.queue = (D.others w worker).map Prod.snd ∧
      (y.take w.isRunning worker).shared.active =
        y.active + if (D.next w worker).isSome then 1 else 0 := by
  obtain ⟨entry, left⟩ := TaskQueue.scan_spec w.isRunning worker false y.queue
  rw [queue, List.find?_map] at entry
  rw [queue, List.eraseP_map] at left
  refine ⟨?_, ?_⟩
  · change (TaskQueue.scan w.isRunning worker false y.queue).rest = _
    rw [queue]
    exact left
  · change (if (TaskQueue.scan w.isRunning worker false y.queue).entry.isSome then _ else _) = _
    rw [queue, entry, Option.isSome_map]
    change (if (D.next w worker).isSome = true then _ else _) = _
    split <;> rfl

theorem Docket.others_of_none {worker : Nat} (none : D.next w worker = none) :
    D.others w worker = D.posts :=
  List.eraseP_of_forall_not fun p mem => List.find?_eq_none.mp none p mem

/-- Only the fiber of a callback that has ended is kept. -/
theorem Grip.of_recycle {own : Bool} {state : FiberState} {pooled capacity : Nat}
    (after : Grip.aftermath own state pooled capacity = .recycle) :
    own = true ∧ state.isTerminal = true := by
  cases own with
  | false =>
    change Aftermath.ofFiber state = _ at after
    unfold Aftermath.ofFiber at after
    split at after <;> cases after
  | true =>
    change Aftermath.ofCallback state pooled capacity = _ at after
    refine ⟨rfl, ?_⟩
    cases state <;> first | rfl | cases after

/-- Only a fiber that is ready is queued again. -/
theorem Grip.of_requeue {own : Bool} {state : FiberState} {pooled capacity : Nat}
    (after : Grip.aftermath own state pooled capacity = .requeue) : state = .ready := by
  cases own with
  | false =>
    change (if state = .ready then Aftermath.requeue else .dismiss) = _ at after
    split at after
    · assumption
    · cases after
  | true =>
    change Aftermath.ofCallback state pooled capacity = _ at after
    unfold Aftermath.ofCallback at after
    split at after
    · rfl
    · split at after <;> cases after
    · split at after <;> cases after
    · cases after

/-- Every step keeps what holds of the tasks. -/
theorem Carries.carried (run : Carries s D w) : Carried s D w := by
  induction run with
  | @start w y fit known queue active =>
    refine ⟨⟨fit, fun _ => Nat.zero_le _, .refl _, fun p mem => absurd mem List.not_mem_nil,
      fun _ => trivial, List.nodup_nil, fun f mem => absurd mem List.not_mem_nil,
      fun f mem => absurd mem List.not_mem_nil, fun x mem => absurd mem List.not_mem_nil⟩,
      fun x mem => absurd mem List.not_mem_nil, y, known, queue, active⟩
  | elsewhere _ beside shared ih =>
    obtain ⟨y, known, queue, active⟩ := ih.shared
    obtain ⟨y', known', queue', active'⟩ := shared y known
    exact ⟨ih.filed.beside beside, ih.serves, y', known', queue'.trans queue, active'.trans active⟩
  | @accept D D' w es _ accepts handed ih =>
    obtain ⟨y, known, queue, active⟩ := ih.shared
    obtain ⟨filed, posts, crew⟩ := accepts.filed ih.filed handed
    obtain ⟨w', done, same, known'⟩ := enqueue_shared known es
    rw [done]
    refine ⟨filed.untouched same, fun x mem => ih.serves x (crew ▸ mem), _, known', ?_, ?_⟩
    · rw [posts, ← queue]
    · rw [Docket.active, crew]
      exact active
  | @hire D w l _ serves pool handed ih =>
    refine ⟨ih.filed.hires pool handed, fun x mem => ?_, ih.shared⟩
    rcases List.mem_cons.mp mem with rfl | mem
    · exact serves
    · exact ih.serves x mem
  | retire _ worker finished ih =>
    have h := ih.first worker
    obtain ⟨w', released, lets, filed⟩ := h.filed.retires finished
    rw [released]
    refine ⟨filed, fun x mem => h.serves x (List.mem_cons_of_mem _ mem), ?_⟩
    rw [World.sharedOf, lets.schedulers]
    exact h.shared
  | @look D w l rest _ worker none ih =>
    obtain ⟨y, known, queue, active⟩ := ih.shared
    obtain ⟨w', done, same, known'⟩ := takeNext_shared known l.worker
    obtain ⟨queue', active'⟩ := taken_posts (w := w) queue l.worker
    rw [done]
    refine ⟨ih.filed.untouched same, ih.serves, _, known', ?_, ?_⟩
    · rw [queue', Docket.others_of_none none]
    · rw [active', none, active]
      rfl
  | @take D w l rest p _ worker found ih =>
    have h := ih.first worker
    obtain ⟨y, known, queue, active⟩ := h.shared
    obtain ⟨w', done, same, known'⟩ := takeNext_shared known l.worker
    obtain ⟨queue', active'⟩ := taken_posts (w := w) queue l.worker
    rw [done]
    refine h.does (h.filed.takes same found) rfl rfl ⟨_, known', queue', ?_⟩
    have found : (((D.without rest).hand ⟨l, .free⟩).next w l.worker).isSome = true :=
      Option.isSome_of_eq_some found
    rw [active', active, if_pos found, Docket.active_hand, Docket.active_hand]
    rfl
  | @resume D w l rest n f pin _ worker serves ih =>
    have h := ih.first worker
    obtain ⟨w', done, filed, schedulers, _⟩ := h.filed.turnsFiber serves
    rw [done]
    exact h.keeps filed rfl rfl schedulers rfl rfl
  | reuse _ worker pooled serves ih =>
    have h := ih.first worker
    obtain ⟨w', done, filed, schedulers, _⟩ := h.filed.turnsPooled pooled serves
    rw [done]
    exact h.keeps filed rfl rfl schedulers rfl rfl
  | make _ worker none stack serves ih =>
    have h := ih.first worker
    obtain ⟨w', done, filed, schedulers, _⟩ := h.filed.turnsMade none stack serves
    rw [done]
    exact h.keeps filed rfl rfl schedulers rfl rfl
  | leave _ worker begun here departure lawful ih =>
    have h := ih.first worker
    obtain ⟨w', done, filed, schedulers⟩ := h.filed.departs begun here departure lawful
    rw [perform_of_ok done]
    cases departure <;> exact h.keeps filed rfl rfl schedulers rfl rfl
  | @back D w l rest n f _ worker ih =>
    have h := ih.first worker
    obtain ⟨y, known, queue, active⟩ := h.shared
    obtain ⟨w', done, same, known'⟩ := enqueue_shared known [⟨.fiber f, none⟩]
    rw [done]
    refine h.does (h.filed.backs same) rfl rfl ⟨_, known', ?_, active⟩
    rw [List.map_append, queue]
    rfl
  | @settle D w x rest _ worker due ih =>
    have h := ih.first worker
    obtain ⟨y, known, queue, active⟩ := h.shared
    obtain ⟨w', done, same, known'⟩ := settle_shared known
    rw [done]
    refine h.does (h.filed.settles same) rfl rfl ⟨_, known', queue, ?_⟩
    change y.active - 1 = _
    rw [active, Docket.active_hand, Docket.active_hand, due.1, due.2]
    rfl
  | @recycle D w x rest f own state _ worker back after ih =>
    have h := ih.first worker
    obtain ⟨rfl, ended⟩ := Grip.of_recycle after
    refine h.keeps (h.filed.recycles back ended) rfl rfl rfl rfl ?_
    rcases Grip.of_back back with grip | grip <;> rw [grip] <;> rfl
  | drop _ worker back after ih =>
    have h := ih.first worker
    obtain ⟨w', released, lets, filed⟩ := h.filed.drops back
    rw [released]
    refine h.keeps filed rfl rfl lets.schedulers rfl ?_
    rcases Grip.of_back back with grip | grip <;> rw [grip] <;> rfl

/-- A turn of the run loop begins with a look for work, and goes on with what was found. -/
theorem Carries.turn_on (run : Carries s D w) (worker : D.crew.Perm (⟨l, .free⟩ :: rest)) :
    (turn l).on w = (match D.next w l.worker with
      | none => turnIdle l
      | some p =>
        match p.2.task with
        | .fiber id => turnFiber l id
        | .callback body => turnCallback l body).on ((takeNext s l.worker).on w).2 := by
  have h := run.carried.first worker
  obtain rfl : l.scheduler = s := h.serves _ List.mem_cons_self
  obtain ⟨y, known, queue, _⟩ := h.shared
  obtain ⟨w', done, _⟩ := takeNext_shared known l.worker
  have entry : (y.take w.isRunning l.worker).entry = (D.next w l.worker).map Prod.snd := by
    have scanned := (TaskQueue.scan_spec w.isRunning l.worker false y.queue).1
    rw [queue, List.find?_map] at scanned
    change (TaskQueue.scan w.isRunning l.worker false y.queue).entry = _
    rw [queue]
    exact scanned
  rw [entry] at done
  rw [turn, Act.on_bind_ok done, done]
  cases D.next w l.worker <;> rfl

/-- The step after which a thread goes on with its run loop. -/
theorem Carries.pushed (run : Carries s D w) (frame : Frame) : Carries s D (w.pushed frame) :=
  run.elsewhere (.pushed run.carried.filed frame) fun y known => ⟨y, known, rfl, rfl⟩

theorem settle_capacity (w : World) (s : SchedulerId) :
    (((settle s).on w).2).capacityOf s = w.capacityOf s := by
  change (((w.schedulers.modify s _).get? s).getD default).config.pool = _
  rw [World.capacityOf, Table.get?_modify, if_pos rfl]
  cases w.schedulers.get? s <;> rfl

/-- What the run loop does with a fiber that came back is made of steps, after which the worker has
its hands free. -/
theorem Carries.endsTurn {grip : Grip} {own : Bool} {left : FiberState} (run : Carries s D w)
    (worker : D.crew.Perm (⟨l, grip⟩ :: rest))
    (came : grip = .ready n f ∧ left = .ready ∨ grip = .left f own left ∧ left ≠ .ready) :
    ∃ D' l', Carries s D' (w.perform
        (endTurn l f (Grip.aftermath own left l.pool.length (w.capacityOf s)))).2 ∧
      D'.crew = ⟨l', .free⟩ :: rest ∧ D'.tasks = D.tasks := by
  have h := run.carried.first worker
  obtain rfl : l.scheduler = s := h.serves _ List.mem_cons_self
  rcases came with ⟨rfl, rfl⟩ | ⟨rfl, other⟩
  · have again : Grip.aftermath own .ready l.pool.length (w.capacityOf l.scheduler) = .requeue := by
      cases own <;> rfl
    rw [again]
    obtain ⟨y, known, _⟩ := h.shared
    obtain ⟨v, queued, _⟩ := enqueue_shared known [⟨.fiber f, none⟩]
    have done : (endTurn l f .requeue).on w =
        (.ok (.done .null), ((Script.settle l.scheduler).on v).2.pushed (.loop l)) :=
      (Act.on_bind_ok queued).trans rfl
    have steps := ((run.back worker).settle (.refl _) ⟨rfl, rfl⟩).pushed (.loop l)
    rw [queued] at steps
    rw [perform_of_ok done]
    exact ⟨_, l, steps, rfl, rfl⟩
  · cases after : Grip.aftermath own left l.pool.length (w.capacityOf l.scheduler) with
    | requeue => exact absurd (Grip.of_requeue after) other
    | recycle =>
      have steps := ((run.recycle worker rfl after).settle (.refl _) ⟨rfl, rfl⟩).pushed
        (.loop { l with pool := f :: l.pool })
      exact ⟨_, _, steps, rfl, rfl⟩
    | dismiss =>
      have settled := run.settle worker ⟨rfl, rfl⟩
      obtain ⟨u, released, _⟩ := settled.carried.filed.drops (f := f) rfl
      have done : (endTurn l f .dismiss).on w = (.ok (.done .null), u.pushed (.loop l)) :=
        (Act.on_bind_ok rfl).trans ((Act.on_bind_ok released).trans rfl)
      have steps := (settled.drop (.refl _) rfl (settle_capacity w l.scheduler ▸ after)).pushed
        (.loop l)
      rw [released] at steps
      rw [perform_of_ok done]
      exact ⟨_, l, steps, rfl, rfl⟩

def hiredWorld : World := (poolWorld.perform (BodyCall.make (.idle 1) 131072 true).act).2

theorem hiredWorld_fit : hiredWorld.Fit := by
  have allowed : (BodyCall.make (.idle 1) 131072 true).Allowed poolWorld := rfl
  exact (BodyCall.onward poolWorld_unworked.sound.fit allowed).fit

end Fibers.Script
