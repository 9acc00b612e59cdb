import Fibers.Proofs.Scheduler.Holding
import Mathlib.Data.List.Perm.Basic

/-!
The run loops of a scheduler and their pools. A fiber whose callback has ended is kept for another
callback, although its handles may still stand in the queue, with events and with timers. A `Roster`
follows the run loops: the turns in progress, the fibers in the pools, and for every fiber how often
a pool handed it to another callback. Each entry of the queue carries the number that its fiber had
when it was queued, so that it can be told whether the body which a turn continues is the one that
was meant. `Sound` is what holds of a world with a roster; every part of a turn keeps it.
-/

namespace Fibers

/-- The fiber that an entry of the queue is to resume. -/
def QueueEntry.fiber? {β : Type} (e : QueueEntry β) : Option FiberId :=
  match e.task with
  | .fiber id => some id
  | .callback _ => none

namespace Script

/-- How far the turn of a worker is. -/
inductive Stage where
  /-- No turn is in progress. -/
  | free
  /-- A fiber of the queue was resumed. -/
  | fiber (id : FiberId)
  /-- A fiber was given a callback and resumed. -/
  | callback (id : FiberId)

def Stage.fibers : Stage → List FiberId
  | .free => []
  | .fiber id | .callback id => [id]

def Stage.callbacks : Stage → List FiberId
  | .free | .fiber _ => []
  | .callback id => [id]

structure Worker where
  loop : Loop
  stage : Stage

/-- The fibers that a worker has handles of. -/
def Worker.handles (x : Worker) : List FiberId :=
  x.loop.pool ++ x.loop.idleFiber :: x.stage.fibers

/-- The fibers that a worker has for callbacks. -/
def Worker.own (x : Worker) : List FiberId := x.loop.pool ++ x.stage.callbacks

/-- An entry of the queue. -/
structure Post where
  entry : QueueEntry Body
  /-- How often its fiber had been handed on when it was queued. -/
  meant : Nat
  /-- Whether its fiber was handed on since. -/
  overtaken : Bool

/-- The run loops of a scheduler and its queue. -/
structure Roster where
  crew : List Worker
  posts : List Post
  /-- How often a pool handed a fiber to another callback. -/
  reuses : FiberId → Nat

namespace Roster

variable (R : Roster)

def empty : Roster := ⟨[], [], fun _ => 0⟩

/-- The fibers of which the workers and the queue have handles, as often as they have one. -/
def held : List FiberId :=
  R.crew.flatMap Worker.handles ++ R.posts.filterMap (·.entry.fiber?)

/-- The fibers that the workers have for callbacks. -/
def own : List FiberId := R.crew.flatMap Worker.own

/-- An entry that is queued now. -/
def post (e : QueueEntry Body) : Post := ⟨e, (e.fiber?.map R.reuses).getD 0, false⟩

def posted (entries : List (QueueEntry Body)) : Roster :=
  { R with posts := R.posts ++ entries.map R.post }

end Roster

/-- The entry that a run loop takes. -/
def nextPost (posts : List Post) (w : World) (l : Loop) : Option Post :=
  posts.find? fun p => TaskQueue.eligible w.isRunning l.worker p.entry

/-- The entries that it leaves. -/
def otherPosts (posts : List Post) (w : World) (l : Loop) : List Post :=
  posts.eraseP fun p => TaskQueue.eligible w.isRunning l.worker p.entry

/-- The entry of a fiber that is handed on. -/
def Post.overtake (id : FiberId) (p : Post) : Post :=
  if p.entry.fiber? = some id then { p with overtaken := true } else p

/-- A fiber is handed to another callback. -/
def Roster.reuse (R : Roster) (id : FiberId) : Roster :=
  { R with
    posts := R.posts.map (Post.overtake id)
    reuses := Function.update R.reuses id (R.reuses id + 1) }

/-- What holds of a world with run loops. -/
structure Sound (s : SchedulerId) (R : Roster) (w : World) : Prop where
  fit : w.Fit
  queue : w.queueOf s = some (R.posts.map (·.entry))
  covered : ∀ id, R.held.count id ≤ w.fibers.handlesOf id
  serves : ∀ x ∈ R.crew, x.loop.scheduler = s
  nodup : R.own.Nodup
  own : ∀ id ∈ R.own, ∃ r, w.fibers.get? id = some r ∧ r.isMain = false
  pooled : ∀ x ∈ R.crew, ∀ id ∈ x.loop.pool, ∀ r, w.fibers.get? id = some r →
    r.state.isTerminal = true
  dated : ∀ p ∈ R.posts, ∀ f, p.entry.fiber? = some f →
    p.meant ≤ R.reuses f ∧ (p.meant = R.reuses f ↔ p.overtaken = false)

variable {s : SchedulerId} {R : Roster} {w w' v : World} {x : Worker} {rest : List Worker}
  {posts : List Post} {reuses : FiberId → Nat} {id f : FiberId} {l : Loop}

theorem count_own_le (x : Worker) (id : FiberId) : x.own.count id ≤ x.handles.count id := by
  unfold Worker.own Worker.handles
  rw [List.count_append, List.count_append, List.count_cons]
  cases x.stage with
  | free | fiber _ => simp [Stage.callbacks]
  | callback _ => simp only [Stage.callbacks, Stage.fibers]; omega

theorem own_held {x : Worker} (mem : x ∈ R.crew) (own : id ∈ x.own) : 0 < R.held.count id := by
  refine List.count_pos_iff.mpr (List.mem_append_left _ (List.mem_flatMap.mpr ⟨x, mem, ?_⟩))
  exact List.count_pos_iff.mp
    (Nat.lt_of_lt_of_le (List.count_pos_iff.mpr own) (count_own_le x id))

theorem held_of_own (own : id ∈ R.own) : 0 < R.held.count id := by
  obtain ⟨x, mem, own⟩ := List.mem_flatMap.mp own
  exact own_held mem own

theorem held_cons (id : FiberId) :
    (Roster.held ⟨x :: rest, posts, reuses⟩).count id =
      x.handles.count id + (Roster.held ⟨rest, posts, reuses⟩).count id := by
  unfold Roster.held
  rw [List.flatMap_cons, List.append_assoc, List.count_append]

theorem held_stage (l : Loop) (stage : Stage) (id : FiberId) :
    (Roster.held ⟨⟨l, stage⟩ :: rest, posts, reuses⟩).count id =
      (Roster.held ⟨⟨l, .free⟩ :: rest, posts, reuses⟩).count id + stage.fibers.count id := by
  rw [held_cons, held_cons]
  simp only [Worker.handles, Stage.fibers, List.count_append, List.count_cons, List.count_nil]
  omega

theorem held_posts (crew : List Worker) (id : FiberId) :
    (Roster.held ⟨crew, posts, reuses⟩).count id =
      (crew.flatMap Worker.handles).count id +
        (posts.filterMap (·.entry.fiber?)).count id := List.count_append

theorem held_perm {crew : List Worker} (perm : R.crew.Perm crew) (id : FiberId) :
    (Roster.held ⟨crew, R.posts, R.reuses⟩).count id = R.held.count id := by
  rw [held_posts, ← (perm.flatMap_right Worker.handles).count_eq id]
  exact List.count_append.symm

/-- The entry that is taken is one of those that stood in the queue. -/
theorem perm_otherPosts {p : Post} (found : nextPost posts w l = some p) :
    posts.Perm (p :: otherPosts posts w l) := perm_eraseP found

theorem count_otherPosts {p : Post} (found : nextPost posts w l = some p) (id : FiberId) :
    (posts.filterMap (·.entry.fiber?)).count id =
      p.entry.fiber?.toList.count id +
        ((otherPosts posts w l).filterMap (·.entry.fiber?)).count id := by
  rw [((perm_otherPosts found).filterMap (·.entry.fiber?)).count_eq id, List.filterMap_cons]
  cases p.entry.fiber? with
  | none => simp
  | some f => rw [Option.toList_some, ← List.count_append]; rfl

theorem count_otherPosts_le (posts : List Post) (w : World) (l : Loop) (id : FiberId) :
    ((otherPosts posts w l).filterMap (·.entry.fiber?)).count id ≤
      (posts.filterMap (·.entry.fiber?)).count id :=
  (List.eraseP_sublist.filterMap _).count_le id

theorem mem_of_mem_otherPosts {p : Post} (mem : p ∈ otherPosts posts w l) : p ∈ posts :=
  List.mem_of_mem_eraseP mem

namespace Sound

/-- Whatever keeps what the workers and the queue hold. -/
theorem keeps (h : Sound s R w) (fit : w'.Fit) (keeps : w.fibers.Keeps R.held w'.fibers)
    (queueOf : w'.queueOf s = w.queueOf s) : Sound s R w' where
  fit := fit
  queue := queueOf.trans h.queue
  covered := keeps.covered h.covered
  serves := h.serves
  nodup := h.nodup
  own id mem := by
    obtain ⟨r, hr, own⟩ := h.own id mem
    obtain ⟨r', hr', main, _⟩ := keeps id r (held_of_own mem) hr
    exact ⟨r', hr', main.trans own⟩
  pooled x hx id mem r' hr' := by
    have own : id ∈ x.own := List.mem_append_left _ mem
    obtain ⟨r, hr, _⟩ := h.own id (List.mem_flatMap.mpr ⟨x, hx, own⟩)
    have ended := h.pooled x hx id mem r hr
    obtain ⟨q, hq, _, _, state⟩ := keeps id r (own_held hx own) hr
    obtain rfl := Option.some.inj (hq.symm.trans hr')
    rw [state ended]
    exact ended
  dated := h.dated

theorem onward (h : Sound s R w) (on : Onward w w') : Sound s R w' :=
  h.keeps on.fit (on.evolves.keeps h.covered) (on.queueOf s)

theorem outside (h : Sound s R w) (o : Outside R.held w w') (queueOf : w'.queueOf s = w.queueOf s) :
    Sound s R w' :=
  h.keeps (o.fit h.fit) o.keeps queueOf

/-- Workers and queue change hands, and no more is held than before. -/
theorem change (h : Sound s R w) {R' : Roster} (same : Untouched w v)
    (queue : v.queueOf s = some (R'.posts.map (·.entry)))
    (held : ∀ id, R'.held.count id ≤ R.held.count id)
    (own : ∀ id, R'.own.count id ≤ R.own.count id)
    (serves : ∀ x ∈ R'.crew, x.loop.scheduler = s)
    (pooled : ∀ x ∈ R'.crew, ∀ id ∈ x.loop.pool, ∀ r, w.fibers.get? id = some r →
      r.state.isTerminal = true)
    (dated : ∀ p ∈ R'.posts, ∀ f, p.entry.fiber? = some f →
      p.meant ≤ R'.reuses f ∧ (p.meant = R'.reuses f ↔ p.overtaken = false)) : Sound s R' v where
  fit := h.fit.untouched same
  queue := queue
  covered id := by
    rw [same.fibers]
    exact Nat.le_trans (held id) (h.covered id)
  serves := serves
  nodup := List.nodup_iff_count_le_one.mpr fun id =>
    Nat.le_trans (own id) (List.nodup_iff_count_le_one.mp h.nodup id)
  own id mem := by
    rw [same.fibers]
    exact h.own id
      (List.count_pos_iff.mp (Nat.lt_of_lt_of_le (List.count_pos_iff.mpr mem) (own id)))
  pooled := by
    rw [same.fibers]
    exact pooled
  dated := dated

theorem perm (h : Sound s R w) {crew : List Worker} (perm : R.crew.Perm crew) :
    Sound s { R with crew := crew } w := by
  exact h.change ⟨rfl, rfl, rfl, rfl⟩ h.queue (fun id => Nat.le_of_eq (held_perm perm id))
    (fun id => Nat.le_of_eq ((perm.flatMap_right Worker.own).count_eq id).symm)
    (fun x hx => h.serves x (perm.mem_iff.mpr hx)) (fun x hx => h.pooled x (perm.mem_iff.mpr hx))
    h.dated

/-- A worker leaves, and whoever holds what it held is none of the others. -/
theorem leave (h : Sound s ⟨x :: rest, posts, reuses⟩ w) : Sound s ⟨rest, posts, reuses⟩ w := by
  refine h.change ⟨rfl, rfl, rfl, rfl⟩ h.queue (fun id => ?_) (fun id => ?_)
    (fun x hx => h.serves x (List.mem_cons_of_mem _ hx))
    (fun x hx => h.pooled x (List.mem_cons_of_mem _ hx)) h.dated
  · rw [held_cons]
    exact Nat.le_add_left _ _
  · change _ ≤ List.count id (x.own ++ _)
    rw [List.count_append]
    exact Nat.le_add_left _ _

end Sound

/-- The world in which a run loop has looked for work. -/
def World.looked (w : World) (l : Loop) : World := ((takeNext l.scheduler l.worker).on w).2

theorem turn_looks (known : w.queueOf l.scheduler = some (posts.map (·.entry))) :
    Untouched w (w.looked l) ∧
      (w.looked l).queueOf l.scheduler = some ((otherPosts posts w l).map (·.entry)) ∧
      (turn l).on w =
        (match nextPost posts w l with
          | none => turnIdle l
          | some p =>
            match p.entry.task with
            | .fiber id => turnFiber l id
            | .callback body => turnCallback l body).on (w.looked l) := by
  obtain ⟨v, taken, same, queue⟩ := takeNext_from known l.worker
  have looked : w.looked l = v := congrArg Prod.snd taken
  rw [List.find?_map] at taken
  rw [List.eraseP_map] at queue
  rw [looked]
  refine ⟨same, queue, ?_⟩
  change _ = (Except.ok (Option.map Post.entry (nextPost posts w l)), v) at taken
  rw [turn, Act.on_bind_ok taken]
  cases nextPost posts w l <;> rfl

/-- What a run loop goes on with after it has looked for work. -/
theorem turn_of_next {p : Post} (known : w.queueOf l.scheduler = some (posts.map (·.entry)))
    (found : nextPost posts w l = some p) :
    (turn l).on w =
      (match p.entry.task with
        | .fiber id => turnFiber l id
        | .callback body => turnCallback l body).on (w.looked l) := by
  rw [(turn_looks known).2.2, found]

theorem turn_of_none (known : w.queueOf l.scheduler = some (posts.map (·.entry)))
    (none : nextPost posts w l = none) : (turn l).on w = (turnIdle l).on (w.looked l) := by
  rw [(turn_looks known).2.2, none]

/-- The workers after a turn that ends with a signal: one whose turn breaks off leaves. -/
def staff (rest : List Worker) (x : Worker) (signal : Signal) : List Worker :=
  if signal.isRaised then rest else x :: rest

namespace Sound

/-- A free worker has looked for work, and holds no more than before together with the queue. -/
theorem look (h : Sound s ⟨⟨l, .free⟩ :: rest, posts, reuses⟩ w) (y : Worker)
    (serves : y.loop.scheduler = l.scheduler)
    (held : ∀ id, y.handles.count id +
        ((otherPosts posts w l).filterMap
          (·.entry.fiber?)).count id ≤
      (Worker.handles ⟨l, .free⟩).count id + (posts.filterMap (·.entry.fiber?)).count id)
    (own : ∀ id, y.own.count id ≤ (Worker.own ⟨l, .free⟩).count id)
    (pool : ∀ id ∈ y.loop.pool, id ∈ l.pool) :
    Sound s ⟨y :: rest, otherPosts posts w l, reuses⟩
      (w.looked l) := by
  obtain rfl : l.scheduler = s := h.serves _ List.mem_cons_self
  obtain ⟨same, queue, _⟩ := turn_looks h.queue
  refine h.change same queue (fun id => ?_) (fun id => ?_) (fun x mem => ?_)
    (fun x mem id hid => ?_) fun p mem => h.dated p (mem_of_mem_otherPosts mem)
  · rw [held_cons, held_cons, held_posts, held_posts]
    have held := held id
    omega
  · change List.count id (y.own ++ _) ≤ List.count id (Worker.own ⟨l, .free⟩ ++ _)
    rw [List.count_append, List.count_append]
    exact Nat.add_le_add_right (own id) _
  · rcases List.mem_cons.mp mem with rfl | mem
    · exact serves
    · exact h.serves x (List.mem_cons_of_mem _ mem)
  · rcases List.mem_cons.mp mem with rfl | mem
    · exact h.pooled ⟨l, .free⟩ List.mem_cons_self id (pool id hid)
    · exact h.pooled x (List.mem_cons_of_mem _ mem) id hid

theorem looks (h : Sound s ⟨⟨l, .free⟩ :: rest, posts, reuses⟩ w) :
    Sound s ⟨⟨l, .free⟩ :: rest,
      otherPosts posts w l, reuses⟩ (w.looked l) :=
  h.look ⟨l, .free⟩ rfl (fun id => Nat.add_le_add_left (count_otherPosts_le posts w l id) _)
    (fun _ => Nat.le_refl _) fun _ mem => mem

/-- A worker lets go of some of its fibers, which hold no body, and each of which is in no resume or
has handles to spare. -/
theorem letsGo (h : Sound s ⟨x :: rest, posts, reuses⟩ w) (ys : List Worker) (ids : List FiberId)
    (held : ∀ id, (ys.flatMap Worker.handles).count id + ids.count id = x.handles.count id)
    (own : ∀ id, (ys.flatMap Worker.own).count id ≤ x.own.count id)
    (same : ∀ y ∈ ys, y.loop = x.loop)
    (calm : ∀ id ∈ ids, ∀ r, w.fibers.get? id = some r → r.entry = none ∧
      ((Roster.held ⟨x :: rest, posts, reuses⟩).count id < r.handles ∨
        r.state ≠ .exec ∧ r.awaiting = none)) :
    ∃ w', (release (ids.map .fiber)).on w = (.ok (), w') ∧
      Sound s ⟨ys ++ rest, posts, reuses⟩ w' := by
  have fewer : ∀ id, (Roster.held ⟨ys ++ rest, posts, reuses⟩).count id + ids.count id =
      (Roster.held ⟨x :: rest, posts, reuses⟩).count id := by
    intro id
    have held := held id
    rw [held_cons, held_posts, held_posts, List.flatMap_append, List.count_append]
    omega
  obtain ⟨w', released, outside, queueOf⟩ := @release_outside _ _ ids h.fit
    (fun id => by rw [fewer]; exact h.covered id)
    (fun id mem r hr => by rw [fewer]; exact calm id mem r hr)
  have there : ∀ y ∈ ys ++ rest, ∃ z ∈ x :: rest, y.loop = z.loop := by
    intro y mem
    rcases List.mem_append.mp mem with mem | mem
    · exact ⟨x, List.mem_cons_self, same y mem⟩
    · exact ⟨y, List.mem_cons_of_mem _ mem, rfl⟩
  have passed : Sound s ⟨ys ++ rest, posts, reuses⟩ w := by
    refine h.change ⟨rfl, rfl, rfl, rfl⟩ h.queue
      (fun id => by rw [← fewer]; exact Nat.le_add_right _ _) (fun id => ?_) (fun y mem => ?_)
      (fun y mem => ?_) h.dated
    · change List.count id (List.flatMap Worker.own (ys ++ rest)) ≤ List.count id (x.own ++ _)
      rw [List.flatMap_append, List.count_append, List.count_append]
      exact Nat.add_le_add_right (own id) _
    · obtain ⟨z, there, loop⟩ := there y mem
      rw [loop]
      exact h.serves z there
    · obtain ⟨z, there, loop⟩ := there y mem
      rw [loop]
      exact h.pooled z there
  exact ⟨w', released, passed.outside outside (queueOf _)⟩

/-- A turn that resumes a fiber, or breaks off because a rule forbids that. -/
theorem resumed (h : Sound s ⟨x :: rest, posts, reuses⟩ w) {act : Act Signal} {u : World}
    (goes : act.on u = (resume f).on w)
    (free : w.fibers.Approachable w.thread.current f) :
    Sound s ⟨staff rest x (u.perform act).1, posts, reuses⟩ (u.perform act).2 := by
  rcases resume_onward h.fit free with ⟨v, w', rejected, on⟩ | ⟨tr, accepted, _, on⟩
  · rw [perform_of_panic (goes.trans rejected)]
    exact (h.onward on).leave
  · rw [perform_of_ok (goes.trans accepted)]
    exact h.onward on

end Sound

theorem approachable_of_same {u : World} (same : Untouched w u) (thread : w.HasThread)
    (frame : Frame) (free : w.fibers.Approachable w.thread.current f) :
    (u.pushed frame).fibers.Approachable (u.pushed frame).thread.current f := by
  have has : u.HasThread := by
    rw [World.HasThread, same.threads, same.running]
    exact thread
  rw [(pushed_thread has frame).2]
  change u.fibers.Approachable u.thread.current f
  rw [same.fibers, same.thread]
  exact free

theorem turnFiber_wakes (resumable : (w.fibers.state f).isResumable = true) :
    (turnFiber l f).on w = (resume f).on (w.pushed (.loopFiber l f)) := by
  rw [turnFiber, Act.on_bind_get]
  dsimp only
  rw [if_pos resumable]
  exact Act.on_bind_ok (push_on _ w)

theorem Sound.wakes {p : Post} (h : Sound s ⟨⟨l, .free⟩ :: rest, posts, reuses⟩ w)
    (found : nextPost posts w l = some p)
    (task : p.entry.task = .fiber f) :
    Sound s ⟨⟨l, .fiber f⟩ :: rest,
      otherPosts posts w l, reuses⟩ (w.looked l) := by
  refine h.look ⟨l, .fiber f⟩ rfl (fun id => ?_) (fun _ => Nat.le_refl _) fun _ mem => mem
  have taken : p.entry.fiber? = some f := by rw [QueueEntry.fiber?, task]
  have counted := count_otherPosts found id
  rw [taken, Option.toList_some] at counted
  have more : (Worker.handles ⟨l, .fiber f⟩).count id =
      (Worker.handles ⟨l, .free⟩).count id + [f].count id := by
    simp only [Worker.handles, Stage.fibers, List.count_append, List.count_cons, List.count_nil]
    omega
  omega

/-- The entry of a fiber that has ended is passed over. -/
theorem Sound.skips {p : Post} (h : Sound s ⟨⟨l, .free⟩ :: rest, posts, reuses⟩ w)
    (found : nextPost posts w l = some p)
    (task : p.entry.task = .fiber f) (ended : (w.fibers.state f).isResumable = false) :
    ∃ w', (turnFiber l f).on (w.looked l) = (.ok (.done .null), w') ∧
      Sound s ⟨⟨l, .free⟩ :: rest,
        otherPosts posts w l, reuses⟩ w' := by
  obtain rfl : l.scheduler = s := h.serves _ List.mem_cons_self
  have same : Untouched w (w.looked l) := (turn_looks h.queue).1
  obtain ⟨v, logged, quiet⟩ := log_quiet .debug
    s!"skipping fiber {f.render} in state {((w.looked l).fibers.state f).render}" (w.looked l)
  -- The handle of the entry is with the worker until it lets go of it.
  have taken := h.wakes found task
  have settled : Even v (v.withShared l.scheduler Shared.settle) := .modify _ _ fun _ => rfl
  have holds := (taken.onward (.quiet taken.fit quiet)).onward
    (.even (taken.fit.untouched quiet.untouched) settled)
  have fibers : (v.withShared l.scheduler Shared.settle).fibers = w.fibers :=
    (settled.fibers.trans quiet.fibers).trans same.fibers
  have idle : w.fibers.state f ≠ .exec := by
    have able := List.find?_some (show List.find? _ _ = some p from found)
    have off : w.isRunning f = false := by
      simp only [TaskQueue.eligible, task, Bool.and_eq_true, Bool.not_eq_true'] at able
      exact able.2
    intro e
    rw [World.isRunning, e] at off
    cases off
  obtain ⟨u, released, dropped⟩ := holds.letsGo [⟨l, .free⟩] [f]
    (fun id => by simp [Worker.handles, Stage.fibers, List.count_cons]; omega)
    (fun id => by simp [Worker.own, Stage.callbacks])
    (fun y mem => by rw [List.mem_singleton.mp mem])
    (by
      intro id mem r hr
      obtain rfl := List.mem_singleton.mp mem
      rw [fibers] at hr
      have state : w.fibers.state id = r.state := by rw [FiberTable.state, hr]
      rw [state] at ended idle
      have terminal : r.state.isTerminal = true := by
        cases hs : r.state <;> rw [hs] at ended idle <;>
          first | rfl | exact absurd rfl idle | cases ended
      exact ⟨h.fit.staffed.begun id r hr terminal,
        .inr ⟨idle, h.fit.staffed.unwaiting_of_ended hr terminal⟩⟩)
  refine ⟨u.pushed (.loop l), ?_, dropped.onward (.pushed dropped.fit _)⟩
  rw [turnFiber, Act.on_bind_get]
  dsimp only
  rw [same.fibers, if_neg (by rw [ended]; exact Bool.false_ne_true)]
  rw [same.fibers] at logged
  rw [logDebug, Act.on_bind_ok logged]
  rw [settle, Act.on_bind_ok (updateShared_on _ _ v)]
  exact (Act.on_bind_ok released).trans rfl

theorem Post.overtake_entry (id : FiberId) (p : Post) : (p.overtake id).entry = p.entry := by
  unfold Post.overtake
  split <;> rfl

theorem Roster.reuse_entries (R : Roster) (id : FiberId) :
    (R.reuse id).posts.map (·.entry) = R.posts.map (·.entry) := by
  change (R.posts.map (Post.overtake id)).map _ = _
  rw [List.map_map]
  exact List.map_congr_left fun p _ => p.overtake_entry id

theorem Roster.reuse_held (R : Roster) (id : FiberId) : (R.reuse id).held = R.held := by
  change R.crew.flatMap Worker.handles ++ (R.posts.map (Post.overtake id)).filterMap _ = _
  rw [List.filterMap_map]
  congr 2
  funext p
  exact congrArg QueueEntry.fiber? (p.overtake_entry id)

/-- The entries that wait for the fiber are overtaken, and no others. -/
theorem Sound.reuse_dated (h : Sound s R w) (id : FiberId) :
    ∀ p ∈ (R.reuse id).posts, ∀ f, p.entry.fiber? = some f →
      p.meant ≤ (R.reuse id).reuses f ∧
        (p.meant = (R.reuse id).reuses f ↔ p.overtaken = false) := by
  intro q on f hq
  obtain ⟨p, mem, rfl⟩ := List.mem_map.mp on
  rw [p.overtake_entry] at hq
  obtain ⟨le, iff⟩ := h.dated p mem f hq
  change _ ≤ Function.update R.reuses id _ f ∧ (_ = Function.update R.reuses id _ f ↔ _)
  unfold Post.overtake
  by_cases hf : f = id
  · subst hf
    rw [if_pos hq, Function.update_self]
    dsimp only
    exact ⟨by omega, fun e => absurd e (by omega), nofun⟩
  · rw [if_neg fun e => hf (Option.some.inj (hq.symm.trans e)), Function.update_of_ne hf]
    exact ⟨le, iff⟩

/-- The fiber that a callback is about to run on is in no pool. -/
theorem Sound.not_pooled (h : Sound s ⟨⟨l, .callback id⟩ :: rest, posts, reuses⟩ w) :
    ∀ x ∈ (⟨l, .callback id⟩ : Worker) :: rest, id ∉ x.loop.pool := by
  have once : List.count id (l.pool ++ [id] ++ rest.flatMap Worker.own) ≤ 1 :=
    List.nodup_iff_count_le_one.mp h.nodup id
  rw [List.count_append, List.count_append, List.count_singleton_self] at once
  intro x mem pooled
  rcases List.mem_cons.mp mem with rfl | mem
  · have more := List.count_pos_iff.mpr pooled
    dsimp only at more
    omega
  · have own : id ∈ x.own := List.mem_append_left _ pooled
    have more := List.count_pos_iff.mpr (List.mem_flatMap.mpr ⟨x, mem, own⟩)
    omega

theorem Sound.restarted (h : Sound s ⟨⟨l, .callback id⟩ :: rest, posts, reuses⟩ w)
    {r : FiberRecord Body} (hr : w.fibers.get? id = some r) (ended : r.state.isTerminal = true)
    (body : Body) :
    Sound s (Roster.reuse ⟨⟨l, .callback id⟩ :: rest, posts, reuses⟩ id)
      (w.restarted id body) := by
  have records : ∀ j, (w.restarted id body).fibers.get? j =
      if j = id then some { r with entry := some body, state := .init, awaiting := none }
      else w.fibers.get? j := by
    intro j
    refine (w.fibers.get?_restarted id body j).trans ?_
    rw [hr]
    rfl
  refine ⟨⟨h.fit.thread, h.fit.staffed.restarted hr ended body⟩, ?_, fun j => ?_, h.serves, h.nodup,
    fun j mem => ?_, fun x mem j hj q hq => ?_, h.reuse_dated id⟩
  · rw [Roster.reuse_entries]
    exact h.queue
  · rw [Roster.reuse_held]
    refine Nat.le_trans (h.covered j) (Nat.le_of_eq ?_)
    unfold FiberTable.handlesOf
    rw [records]
    split
    · next hj =>
      rw [hj, hr]
      rfl
    · rfl
  · obtain ⟨q, hq, main⟩ := h.own j mem
    rw [records]
    split
    · next hj =>
      subst hj
      obtain rfl := Option.some.inj (hr.symm.trans hq)
      exact ⟨_, rfl, main⟩
    · exact ⟨q, hq, main⟩
  · have other : j ≠ id := by
      rintro rfl
      exact h.not_pooled x mem hj
    rw [records, if_neg other] at hq
    exact h.pooled x mem j hj q hq

/-- Neither rule of resets forbids a reset of a fiber in a pool. -/
theorem Sound.reset_on (h : Sound s R w) (mem : x ∈ R.crew) (pooled : id ∈ x.loop.pool)
    (body : Body) : (resetFiber id body).on w = (.ok (), w.restarted id body) := by
  obtain ⟨r, hr, main⟩ :=
    h.own id (List.mem_flatMap.mpr ⟨x, mem, List.mem_append_left _ pooled⟩)
  exact resetFiber_of_ended h.fit hr (h.pooled x mem id pooled r hr) main body

/-- The first fiber of the pool gets the callback. -/
theorem Sound.handsOn {pool : List FiberId}
    (h : Sound s ⟨⟨l, .free⟩ :: rest, posts, reuses⟩ w) (pooled : l.pool = id :: pool)
    (body : Body) :
    ∃ u, (turnCallback l body).on (w.looked l) = (resume id).on u ∧
      u.fibers.Approachable u.thread.current id ∧
      Sound s (Roster.reuse ⟨⟨{ l with pool := pool }, .callback id⟩ :: rest,
        otherPosts posts w l, reuses⟩ id) u := by
  have handed := h.look ⟨{ l with pool := pool }, .callback id⟩ rfl
    (fun j => by
      have less := count_otherPosts_le posts w l j
      simp only [Worker.handles, Stage.fibers, pooled, List.count_append, List.count_cons,
        List.count_nil]
      omega)
    (fun j => by
      simp only [Worker.own, Stage.callbacks, pooled, List.count_append, List.count_cons,
        List.count_nil]
      omega)
    fun j mem => by rw [pooled]; exact List.mem_cons_of_mem _ mem
  obtain rfl : l.scheduler = s := h.serves _ List.mem_cons_self
  have same : Untouched w (w.looked l) := (turn_looks h.queue).1
  obtain ⟨r, hr, _⟩ := h.own id (List.mem_flatMap.mpr
    ⟨⟨l, .free⟩, List.mem_cons_self, List.mem_append_left _ (pooled ▸ List.mem_cons_self)⟩)
  have ended := h.pooled ⟨l, .free⟩ List.mem_cons_self id (pooled ▸ List.mem_cons_self) r hr
  let frame : Frame := .loopCallback { l with pool := pool } id
  have before : Sound l.scheduler ⟨⟨l, .free⟩ :: rest,
      otherPosts posts w l, reuses⟩ ((w.looked l).pushed frame) :=
    h.looks.onward (.pushed h.looks.fit frame)
  have pushed := handed.onward (.pushed handed.fit frame)
  have hr' : ((w.looked l).pushed frame).fibers.get? id = some r := by
    change (w.looked l).fibers.get? id = some r
    rw [same.fibers, hr]
  refine ⟨((w.looked l).pushed frame).restarted id body, ?_, ?_, pushed.restarted hr' ended body⟩
  · rw [turnCallback, pooled]
    dsimp only
    rw [Act.on_bind_ok (push_on _ _)]
    exact Act.on_bind_ok
      (before.reset_on List.mem_cons_self (pooled ▸ List.mem_cons_self) body)
  · intro _ _ _ q hq
    change (((w.looked l).pushed frame).fibers.modify id _).get? id = some q at hq
    rw [FiberTable.get?_modify, if_pos rfl, hr'] at hq
    obtain rfl := Option.some.inj hq
    rfl

/-- What making a stack for a callback comes to, after the run loop has looked for work. -/
def World.stackFor (w : World) (l : Loop) : Except OsError Nat :=
  let v := w.looked l
  (v.kernel.mapStack ((v.schedulers.get? l.scheduler).getD default).config.stackSize).2

/-- A fiber was made for a callback. -/
theorem Sound.withFiber (h : Sound s ⟨⟨l, .free⟩ :: rest, posts, reuses⟩ w) (body : Body)
    (stack : Nat) :
    Sound s ⟨⟨l, .callback ⟨w.fibers.lastId + 1⟩⟩ :: rest, posts, reuses⟩
      (w.withFiber body stack true) := by
  let new : FiberId := ⟨w.fibers.lastId + 1⟩
  have made := h.onward (.withFiber h.fit body stack true)
  have fresh : w.fibers.get? new = none := by
    cases hr : w.fibers.get? new with
    | none => rfl
    | some r =>
      have known : w.fibers.standing new = some r.standing := congrArg (Option.map _) hr
      exact absurd (h.fit.staffed.numbered new _ known) (Nat.not_succ_le_self _)
  have unheld : (Roster.held ⟨⟨l, .free⟩ :: rest, posts, reuses⟩).count new = 0 := by
    have covered := h.covered new
    rw [FiberTable.handlesOf, fresh] at covered
    exact Nat.le_zero.mp covered
  have there : (w.withFiber body stack true).fibers.get? new =
      some ⟨.init, .init, some stack, true, some body, none, none, 1⟩ := by
    change (w.fibers.records.put new _).get? new = _
    rw [Table.get?_put_self]
  refine ⟨made.fit, made.queue, fun id => ?_, fun x mem => ?_, ?_, fun id mem => ?_,
    fun x mem => ?_, made.dated⟩
  · have covered := made.covered id
    by_cases hid : id = new
    · subst hid
      rw [FiberTable.handlesOf_of_get? there, held_stage, unheld, Nat.zero_add]
      exact Nat.le_of_eq List.count_singleton_self
    · rw [held_stage]
      change _ + [new].count id ≤ _
      rw [List.count_cons_of_ne (Ne.symm hid)]
      exact covered
  · rcases List.mem_cons.mp mem with rfl | mem
    · exact h.serves ⟨l, .free⟩ List.mem_cons_self
    · exact h.serves x (List.mem_cons_of_mem _ mem)
  · have nodup := h.nodup
    have unowned : new ∉ l.pool ++ rest.flatMap Worker.own := by
      intro mem
      have own : new ∈ (⟨l, .free⟩ :: rest : List Worker).flatMap Worker.own := by
        rw [List.flatMap_cons]
        simpa [Worker.own, Stage.callbacks] using mem
      obtain ⟨r, hr, _⟩ := h.own new own
      exact absurd (hr.symm.trans fresh) (Option.some_ne_none r)
    change (l.pool ++ [] ++ rest.flatMap Worker.own).Nodup at nodup
    change (l.pool ++ [new] ++ rest.flatMap Worker.own).Nodup
    rw [List.append_nil] at nodup
    rw [List.append_assoc]
    exact List.nodup_middle.mpr (List.nodup_cons.mpr ⟨unowned, nodup⟩)
  · by_cases hid : id = new
    · subst hid
      exact ⟨_, there, rfl⟩
    · refine made.own id ?_
      have own : id ∈ l.pool ++ [new] ++ rest.flatMap Worker.own := mem
      change id ∈ l.pool ++ [] ++ rest.flatMap Worker.own
      simpa [hid] using own
  · rcases List.mem_cons.mp mem with rfl | mem
    · exact made.pooled ⟨l, .free⟩ List.mem_cons_self
    · exact made.pooled x (List.mem_cons_of_mem _ mem)

/-- Where the pool is empty, a fiber is made for the callback. -/
theorem Sound.makes {usable : Nat} (h : Sound s ⟨⟨l, .free⟩ :: rest, posts, reuses⟩ w)
    (none : l.pool = []) (stack : w.stackFor l = .ok usable) (body : Body) :
    ∃ u, (turnCallback l body).on (w.looked l) = (resume ⟨w.fibers.lastId + 1⟩).on u ∧
      u.fibers.Approachable u.thread.current ⟨w.fibers.lastId + 1⟩ ∧
      Sound s ⟨⟨l, .callback ⟨w.fibers.lastId + 1⟩⟩ :: rest,
        otherPosts posts w l, reuses⟩ u := by
  obtain rfl : l.scheduler = s := h.serves _ List.mem_cons_self
  have same : Untouched w (w.looked l) := (turn_looks h.queue).1
  have lastId : (w.looked l).fibers.lastId = w.fibers.lastId := by rw [same.fibers]
  let v : World := { w.looked l with kernel := ((w.looked l).kernel.mapStack
    (((w.looked l).schedulers.get? l.scheduler).getD default).config.stackSize).1 }
  have mapped : Even (w.looked l) v := .kernel _ _
  obtain ⟨y, made, quiet⟩ := makeFiber_of_stack stack body true
  have sound := (h.looks.onward (.even h.looks.fit mapped)).withFiber body usable
  have sound := sound.onward (.quiet sound.fit quiet)
  let new : FiberId := ⟨w.fibers.lastId + 1⟩
  change Sound _ ⟨⟨l, .callback ⟨(w.looked l).fibers.lastId + 1⟩⟩ :: rest, _, _⟩ y at sound
  rw [lastId] at made sound
  have there : y.fibers.get? new =
      some ⟨.init, .init, some usable, true, some body, Option.none, Option.none, 1⟩ := by
    rw [quiet.fibers]
    change ((w.looked l).fibers.records.put ⟨(w.looked l).fibers.lastId + 1⟩ _).get? new = _
    rw [lastId]
    exact Table.get?_put_self _ _ _
  refine ⟨y.pushed (.loopCallback l new), ?_, ?_, sound.onward (.pushed sound.fit _)⟩
  · rw [turnCallback, none]
    dsimp only
    rw [Act.on_bind_ok (schedulerRecord_on _ _), Act.on_bind_ok made]
    exact Act.on_bind_ok (push_on _ _)
  · intro _ _ _ r hr
    obtain rfl := Option.some.inj (there.symm.trans hr)
    rfl

/-- Where there is no stack, the callback is dropped. -/
theorem turnCallback_drops {e : OsError} (none : l.pool = []) (stack : w.stackFor l = .error e)
    (body : Body) : ∃ w', (turnCallback l body).on (w.looked l) = (.ok (.done .null), w') := by
  obtain ⟨x, v, made⟩ := makeFiber_of_none stack body true
  obtain ⟨y, logged, _⟩ := log_quiet .error s!"dropping callback, no fiber available: {x.message}" v
  refine ⟨(y.withShared l.scheduler Shared.settle).pushed (.loop l), ?_⟩
  rw [turnCallback, none]
  dsimp only
  rw [Act.on_bind_ok (schedulerRecord_on _ _), Act.on_bind_ok made]
  exact (Act.on_bind_ok logged).trans rfl

/-- The idle fiber is resumed. -/
theorem Sound.idles (h : Sound s ⟨⟨l, .free⟩ :: rest, posts, reuses⟩ w)
    (lasts : (w.fibers.state l.idleFiber).isTerminal = false) :
    ∃ u, (turnIdle l).on (w.looked l) = (resume l.idleFiber).on u ∧
      (w.fibers.Approachable w.thread.current l.idleFiber →
        u.fibers.Approachable u.thread.current l.idleFiber) ∧
      Sound s ⟨⟨l, .free⟩ :: rest,
        otherPosts posts w l, reuses⟩ u := by
  obtain rfl : l.scheduler = s := h.serves _ List.mem_cons_self
  have same : Untouched w (w.looked l) := (turn_looks h.queue).1
  let v := (w.looked l).withShared l.scheduler Shared.enterIdle
  have entered : Even (w.looked l) v := .modify _ _ fun _ => rfl
  have sound := h.looks.onward (.even h.looks.fit entered)
  have untouched : Untouched w v :=
    ⟨entered.fibers.trans same.fibers, entered.saved.trans same.saved,
      entered.threads.trans same.threads, entered.running.trans same.running⟩
  refine ⟨v.pushed (.loopIdle l), ?_, approachable_of_same untouched h.fit.thread _,
    sound.onward (.pushed sound.fit _)⟩
  rw [turnIdle, Act.on_bind_get, same.fibers, lasts]
  rfl

/-- The idle fiber has ended, and with it the run loop, which lets go of its pool. -/
theorem Sound.ends (h : Sound s ⟨⟨l, .free⟩ :: rest, posts, reuses⟩ w)
    (finished : (w.fibers.state l.idleFiber).isTerminal = true) :
    ∃ w', (turnIdle l).on (w.looked l) = (.ok (.done .null), w') ∧
      Sound s ⟨rest, otherPosts posts w l, reuses⟩ w' := by
  obtain rfl : l.scheduler = s := h.serves _ List.mem_cons_self
  have same : Untouched w (w.looked l) := (turn_looks h.queue).1
  obtain ⟨v, logged, quiet⟩ := log_quiet .debug s!"worker {l.worker} idle fiber finished"
    (w.looked l)
  have sound := h.looks.onward (.quiet h.looks.fit quiet)
  have fibers : v.fibers = w.fibers := quiet.fibers.trans same.fibers
  obtain ⟨w', released, gone⟩ := sound.letsGo [] (l.pool.reverse ++ [l.idleFiber])
    (fun id => by
      simp [Worker.handles, Stage.fibers, List.count_append])
    (fun id => Nat.zero_le _) nofun (by
      intro id mem r hr
      rw [fibers] at hr
      have ended : r.state.isTerminal = true := by
        rcases List.mem_append.mp mem with pooled | idle
        · exact h.pooled ⟨l, .free⟩ List.mem_cons_self id (List.mem_reverse.mp pooled) r hr
        · obtain rfl := List.mem_singleton.mp idle
          rw [FiberTable.state, hr] at finished
          exact finished
      refine ⟨h.fit.staffed.begun id r hr ended, .inr ⟨fun exec => ?_,
        h.fit.staffed.unwaiting_of_ended hr ended⟩⟩
      rw [exec] at ended
      cases ended)
  refine ⟨w', ?_, gone⟩
  have handles : l.handles = (l.pool.reverse ++ [l.idleFiber]).map Handle.fiber := by
    rw [Loop.handles, List.map_append]
    rfl
  rw [turnIdle, Act.on_bind_get, same.fibers, finished, if_pos rfl, logDebug, Act.on_bind_ok logged,
    handles]
  exact Act.on_bind_ok released

/-- Control is back from the fiber of a turn, which was left in a state and has taken its body out.
It is in that state still, or, if it was suspended, others have gone on with it, who have a handle
of it besides the `held` ones. -/
def World.CameBack (w : World) (held : Nat) (id : FiberId) (left : FiberState) : Prop :=
  ∃ r, w.fibers.get? id = some r ∧ r.entry = none ∧
    (r.state = left ∧ left ≠ .exec ∧ r.awaiting = none ∨
      left.isTerminal = false ∧ held < r.handles)

/-- What becomes of the fiber of a turn. -/
def Roster.settled (rest : List Worker) (posts : List Post) (reuses : FiberId → Nat) (l : Loop)
    (id : FiberId) : Aftermath → Roster
  | .requeue => Roster.posted ⟨⟨l, .free⟩ :: rest, posts, reuses⟩ [⟨.fiber id, none⟩]
  | .recycle => ⟨⟨{ l with pool := id :: l.pool }, .free⟩ :: rest, posts, reuses⟩
  | .dismiss => ⟨⟨l, .free⟩ :: rest, posts, reuses⟩

namespace Sound

/-- The worker has its hands free, and a handle that nobody of the roster holds. -/
theorem frees {stage : Stage} (h : Sound s ⟨⟨l, stage⟩ :: rest, posts, reuses⟩ w) :
    Sound s ⟨⟨l, .free⟩ :: rest, posts, reuses⟩ w := by
  refine h.change ⟨rfl, rfl, rfl, rfl⟩ h.queue (fun id => ?_) (fun id => ?_) (fun x mem => ?_)
    (fun x mem => ?_) h.dated
  · rw [held_stage l stage]
    exact Nat.le_add_right _ _
  · change List.count id (l.pool ++ [] ++ _) ≤ List.count id (l.pool ++ stage.callbacks ++ _)
    simp only [List.count_append, List.count_nil]
    omega
  · rcases List.mem_cons.mp mem with rfl | mem
    · exact h.serves ⟨l, stage⟩ List.mem_cons_self
    · exact h.serves x (List.mem_cons_of_mem _ mem)
  · rcases List.mem_cons.mp mem with rfl | mem
    · exact h.pooled ⟨l, stage⟩ List.mem_cons_self
    · exact h.pooled x (List.mem_cons_of_mem _ mem)

/-- Entries were queued, and their handles with them. -/
theorem posted (h : Sound s R w) {entries : List (QueueEntry Body)} (same : Untouched w v)
    (queue : v.queueOf s = some (R.posts.map (·.entry) ++ entries))
    (covered : ∀ id, R.held.count id + (entries.filterMap QueueEntry.fiber?).count id ≤
      w.fibers.handlesOf id) : Sound s (R.posted entries) v where
  fit := h.fit.untouched same
  queue := by
    rw [queue]
    change _ = some ((R.posts ++ entries.map R.post).map _)
    rw [List.map_append, List.map_map]
    exact congrArg (fun es => some (_ ++ es)) (List.map_id' entries).symm
  covered id := by
    rw [same.fibers]
    have covered := covered id
    unfold Roster.held at covered ⊢
    change List.count id (R.crew.flatMap _ ++ (R.posts ++ entries.map R.post).filterMap _) ≤ _
    rw [List.filterMap_append, List.filterMap_map, ← List.append_assoc, List.count_append]
    exact covered
  serves := h.serves
  nodup := h.nodup
  own id mem := by
    rw [same.fibers]
    exact h.own id mem
  pooled := by
    rw [same.fibers]
    exact h.pooled
  dated p mem f hf := by
    rcases List.mem_append.mp mem with mem | mem
    · exact h.dated p mem f hf
    · obtain ⟨e, _, rfl⟩ := List.mem_map.mp mem
      have date : (R.post e).meant = R.reuses f := by
        change (e.fiber?.map R.reuses).getD 0 = _
        rw [show e.fiber? = some f from hf]
        rfl
      rw [date]
      exact ⟨Nat.le_refl _, fun _ => rfl, fun _ => rfl⟩

/-- The fiber goes back to the queue. -/
theorem requeues {stage : Stage} (h : Sound s ⟨⟨l, stage⟩ :: rest, posts, reuses⟩ w)
    (turned : stage.fibers = [id]) :
    ∃ w', (endTurn l id .requeue).on w = (.ok (.done .null), w') ∧
      Sound s (Roster.settled rest posts reuses l id .requeue) w' := by
  obtain rfl : l.scheduler = s := h.serves _ List.mem_cons_self
  obtain ⟨v, queued, same, queue⟩ := enqueue_to h.queue [⟨.fiber id, none⟩]
  have sound := h.frees.posted same queue fun j => by
    have covered := h.covered j
    rw [held_stage l stage, turned] at covered
    exact covered
  have settled : Even v (v.withShared l.scheduler Shared.settle) := .modify _ _ fun _ => rfl
  have sound := sound.onward (.even sound.fit settled)
  refine ⟨(v.withShared l.scheduler Shared.settle).pushed (.loop l), ?_,
    sound.onward (.pushed sound.fit _)⟩
  exact (Act.on_bind_ok queued).trans rfl

/-- The fiber goes to the pool. -/
theorem recycles (h : Sound s ⟨⟨l, .callback id⟩ :: rest, posts, reuses⟩ w)
    {left : FiberState} (ended : left.isTerminal = true) {held : Nat}
    (back : w.CameBack held id left) :
    ∃ w', (endTurn l id .recycle).on w = (.ok (.done .null), w') ∧
      Sound s (Roster.settled rest posts reuses l id .recycle) w' := by
  obtain rfl : l.scheduler = s := h.serves _ List.mem_cons_self
  have settled : Even w (w.withShared l.scheduler Shared.settle) := .modify _ _ fun _ => rfl
  have sound := h.onward (.even h.fit settled)
  let pool : Loop := { l with pool := id :: l.pool }
  have kept : Sound l.scheduler ⟨⟨pool, .free⟩ :: rest, posts, reuses⟩
      (w.withShared l.scheduler Shared.settle) := by
    refine sound.change ⟨rfl, rfl, rfl, rfl⟩ sound.queue (fun j => ?_) (fun j => ?_)
      (fun x mem => ?_) (fun x mem j hj r hr => ?_) sound.dated
    · rw [held_stage l, held_cons, held_cons]
      simp only [Worker.handles, Stage.fibers, pool, List.count_append, List.count_cons,
        List.count_nil]
      omega
    · change List.count j (id :: l.pool ++ [] ++ _) ≤ List.count j (l.pool ++ [id] ++ _)
      simp only [List.count_append, List.count_cons, List.count_nil]
      omega
    · rcases List.mem_cons.mp mem with rfl | mem
      · rfl
      · exact sound.serves x (List.mem_cons_of_mem _ mem)
    · rcases List.mem_cons.mp mem with rfl | mem
      · rcases List.mem_cons.mp hj with rfl | hj
        · obtain ⟨q, hq, _, ⟨state, _⟩ | ⟨lasts, _⟩⟩ := back
          · obtain rfl := Option.some.inj (hq.symm.trans hr)
            rw [state, ended]
          · rw [ended] at lasts
            cases lasts
        · exact sound.pooled ⟨l, .callback id⟩ List.mem_cons_self j hj r hr
      · exact sound.pooled x (List.mem_cons_of_mem _ mem) j hj r hr
  exact ⟨_, rfl, kept.onward (.pushed kept.fit (.loop pool))⟩

/-- The worker lets go of the fiber. -/
theorem dismisses {stage : Stage} (h : Sound s ⟨⟨l, stage⟩ :: rest, posts, reuses⟩ w)
    (turned : stage.fibers = [id]) {left : FiberState}
    (back : w.CameBack ((Roster.held ⟨⟨l, stage⟩ :: rest, posts, reuses⟩).count id) id left) :
    ∃ w', (endTurn l id .dismiss).on w = (.ok (.done .null), w') ∧
      Sound s (Roster.settled rest posts reuses l id .dismiss) w' := by
  obtain rfl : l.scheduler = s := h.serves _ List.mem_cons_self
  have settled : Even w (w.withShared l.scheduler Shared.settle) := .modify _ _ fun _ => rfl
  have sound := h.onward (.even h.fit settled)
  obtain ⟨u, released, dropped⟩ := sound.letsGo [⟨l, .free⟩] [id]
    (fun j => by
      rw [← turned]
      simp [Worker.handles, Stage.fibers, List.count_cons]
      omega)
    (fun j => by simp [Worker.own, Stage.callbacks])
    (fun y mem => by rw [List.mem_singleton.mp mem])
    (by
      intro j mem r hr
      obtain rfl := List.mem_singleton.mp mem
      obtain ⟨q, hq, body, place⟩ := back
      obtain rfl := Option.some.inj (hq.symm.trans hr)
      refine ⟨body, ?_⟩
      rcases place with ⟨state, still, free⟩ | ⟨_, spare⟩
      · exact .inr ⟨state ▸ still, free⟩
      · exact .inl spare)
  refine ⟨u.pushed (.loop l), ?_, dropped.onward (.pushed dropped.fit _)⟩
  rw [endTurn]
  dsimp only
  rw [settle, Act.on_bind_ok (updateShared_on _ _ w)]
  exact (Act.on_bind_ok released).trans rfl

theorem turnedFiber (h : Sound s ⟨⟨l, .fiber id⟩ :: rest, posts, reuses⟩ w) {left : FiberState}
    (back : w.CameBack ((Roster.held ⟨⟨l, .fiber id⟩ :: rest, posts, reuses⟩).count id) id left) :
    Sound s (Roster.settled rest posts reuses l id (.ofFiber left))
      (w.perform (Script.turnedFiber l id left)).2 := by
  obtain ⟨v, logged, level⟩ := when_level (w := w) (left = .except)
    (by
      obtain ⟨v, logged, quiet⟩ := log_quiet .warn s!"fiber {id.render} ended with a panic" w
      exact ⟨v, logged, quiet.level⟩)
  have even := level.even
  have sound := h.onward (.even h.fit even)
  have back' :
      v.CameBack ((Roster.held ⟨⟨l, .fiber id⟩ :: rest, posts, reuses⟩).count id) id left := by
    unfold World.CameBack
    rw [even.fibers]
    exact back
  have goes : (Script.turnedFiber l id left).on w = (endTurn l id (.ofFiber left)).on v := by
    rw [Script.turnedFiber]
    exact Act.on_when (f := fun _ => endTurn l id (.ofFiber left)) logged
  obtain ⟨w', ended, after⟩ : ∃ w', (endTurn l id (.ofFiber left)).on v =
      (.ok (.done .null), w') ∧
        Sound s (Roster.settled rest posts reuses l id (.ofFiber left)) w' := by
    unfold Aftermath.ofFiber
    split
    · exact sound.requeues rfl
    · exact sound.dismisses rfl back'
  rw [perform_of_ok (goes.trans ended)]
  exact after

theorem turnedCallback (h : Sound s ⟨⟨l, .callback id⟩ :: rest, posts, reuses⟩ w)
    {left : FiberState}
    (back : w.CameBack ((Roster.held ⟨⟨l, .callback id⟩ :: rest, posts, reuses⟩).count id) id
      left) :
    Sound s (Roster.settled rest posts reuses l id
        (.ofCallback left l.pool.length ((w.schedulers.get? s).getD default).config.pool))
      (w.perform (Script.turnedCallback l id left)).2 := by
  obtain rfl : l.scheduler = s := h.serves _ List.mem_cons_self
  let capacity := ((w.schedulers.get? l.scheduler).getD default).config.pool
  obtain ⟨w', ended, after⟩ : ∃ w',
      (endTurn l id (.ofCallback left l.pool.length capacity)).on w = (.ok (.done .null), w') ∧
        Sound l.scheduler (Roster.settled rest posts reuses l id
          (.ofCallback left l.pool.length capacity)) w' := by
    unfold Aftermath.ofCallback
    split
    · exact h.requeues rfl
    all_goals first
      | (split
         · exact h.recycles rfl back
         · exact h.dismisses rfl back)
      | exact h.dismisses rfl back
  have goes : (Script.turnedCallback l id left).on w =
      (endTurn l id (.ofCallback left l.pool.length capacity)).on w :=
    Act.on_bind_ok (schedulerRecord_on l.scheduler w)
  rw [perform_of_ok (goes.trans ended)]
  exact after

end Sound

end Script

end Fibers
