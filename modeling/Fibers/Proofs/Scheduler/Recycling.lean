import Fibers.Proofs.Scheduler.Roster

/-!
Fibers that are used again. `Operates` is the runs of the workers of a scheduler on however many
threads: their turns, what the bodies of fibers do, and whatever else happens around them. In all of
them a pool keeps the rule of resets, and an entry reaches the body that it was meant for unless its
fiber was handed on while it waited. That happens: the module ends with a script in which a callback
is woken that nobody queued.
-/

namespace Fibers.Script

variable {s : SchedulerId} {R : Roster} {w w' v : World} {x : Worker} {rest : List Worker}
  {posts : List Post} {reuses : FiberId → Nat} {id f : FiberId} {l : Loop}

/-- What a turn of a free worker makes of the roster. -/
inductive TurnTaken (posts : List Post) (reuses : FiberId → Nat) (rest : List Worker) (l : Loop)
    (w : World) : Roster → Prop where
  /-- There is nothing to take, and the idle fiber has ended. -/
  | ends (none : nextPost posts w l = none)
      (finished : (w.fibers.state l.idleFiber).isTerminal = true) :
      TurnTaken posts reuses rest l w ⟨rest, otherPosts posts w l, reuses⟩
  /-- There is nothing to take, and the idle fiber is resumed. -/
  | idles (none : nextPost posts w l = none)
      (lasts : (w.fibers.state l.idleFiber).isTerminal = false)
      (free : w.fibers.Approachable w.thread.current l.idleFiber) :
      TurnTaken posts reuses rest l w
        ⟨staff rest ⟨l, .free⟩ (w.perform (turn l)).1, otherPosts posts w l, reuses⟩
  /-- A fiber is taken and resumed. -/
  | wakes {p : Post} {f : FiberId} (found : nextPost posts w l = some p)
      (task : p.entry.task = .fiber f)
      (resumable : (w.fibers.state f).isResumable = true)
      (free : w.fibers.Approachable w.thread.current f) :
      TurnTaken posts reuses rest l w
        ⟨staff rest ⟨l, .fiber f⟩ (w.perform (turn l)).1, otherPosts posts w l, reuses⟩
  /-- A fiber is taken that has ended. -/
  | skips {p : Post} {f : FiberId} (found : nextPost posts w l = some p)
      (task : p.entry.task = .fiber f)
      (ended : (w.fibers.state f).isResumable = false) :
      TurnTaken posts reuses rest l w ⟨⟨l, .free⟩ :: rest, otherPosts posts w l, reuses⟩
  /-- A callback is taken, and a fiber of the pool is handed to it. -/
  | handsOn {p : Post} {body : Body} {id : FiberId} {pool : List FiberId}
      (found : nextPost posts w l = some p) (task : p.entry.task = .callback body)
      (pooled : l.pool = id :: pool) :
      TurnTaken posts reuses rest l w
        (Roster.reuse ⟨staff rest ⟨{ l with pool := pool }, .callback id⟩ (w.perform (turn l)).1,
          otherPosts posts w l, reuses⟩ id)
  /-- A callback is taken, and a fiber is made for it. -/
  | makes {p : Post} {body : Body} {usable : Nat} (found : nextPost posts w l = some p)
      (task : p.entry.task = .callback body) (none : l.pool = [])
      (stack : w.stackFor l = .ok usable) :
      TurnTaken posts reuses rest l w
        ⟨staff rest ⟨l, .callback ⟨w.fibers.lastId + 1⟩⟩ (w.perform (turn l)).1,
          otherPosts posts w l, reuses⟩
  /-- A callback is taken for which there is no fiber. What it held was not the last that anybody
  holds of what the workers and the queue hold. -/
  | drops {p : Post} {body : Body} {e : OsError} (found : nextPost posts w l = some p)
      (task : p.entry.task = .callback body) (none : l.pool = [])
      (stack : w.stackFor l = .error e)
      (spare : Outside (Roster.held ⟨⟨l, .free⟩ :: rest, otherPosts posts w l, reuses⟩) w
        (w.perform (turn l)).2)
      (queue : (w.perform (turn l)).2.queueOf l.scheduler =
        some ((otherPosts posts w l).map (·.entry))) :
      TurnTaken posts reuses rest l w ⟨⟨l, .free⟩ :: rest, otherPosts posts w l, reuses⟩

/-- What the bodies of fibers do to fibers. -/
inductive BodyCall where
  | make (body : Body) (size : Nat) (inScheduler : Bool)
  | resume (target : FiberId)
  | suspend (left : FiberState)
  | returns
  | panics (p : Panic)

namespace BodyCall

def act : BodyCall → Act Signal
  | make body size inScheduler => do
    match ← makeFiber body size inScheduler with
    | .error e => fail (.fault e)
    | .ok id => return .done (.nat id.val)
  | resume target => Script.resume target
  | suspend left => yieldTo left
  | returns => do finish (← get).runner .term
  | panics p => do finishPanicked (← get).runner p

/-- No fiber is resumed that waits for another one, and only a fiber that has begun is left. -/
def Allowed (w : World) : BodyCall → Prop
  | make body _ _ => body.handles = []
  | resume target => w.fibers.Approachable w.thread.current target
  | suspend _ => w.Begun
  | returns | panics _ => w.Begun ∧ w.inFiber = true

end BodyCall

/-- A scheduler without work, in a world where no fiber was made yet. -/
structure Unworked (s : SchedulerId) (w : World) : Prop where
  thread : w.HasThread
  fibers : w.fibers = .empty
  aboard : ∀ i, w.aboard i = none
  queue : w.queueOf s = some []

/-- The runs of the workers of a scheduler, on however many threads, each with its roster. -/
inductive Operates (s : SchedulerId) : Roster → World → Prop where
  | start {w : World} (unworked : Unworked s w) : Operates s .empty w
  /-- Other code, on this thread or another one. -/
  | elsewhere {R : Roster} {w w' : World} (run : Operates s R w) (h : Outside R.held w w')
      (queue : w'.queueOf s = w.queueOf s) : Operates s R w'
  | call {R : Roster} {w : World} (run : Operates s R w) (call : BodyCall)
      (allowed : call.Allowed w) : Operates s R (w.perform call.act).2
  /-- A fiber begins: it takes its body out. -/
  | enter {R : Roster} {w : World} {c : FiberId} (run : Operates s R w)
      (current : w.thread.current = some c) : Operates s R (w.entered c)
  /-- Entries are queued by whoever holds the handles of their fibers. -/
  | queue {R : Roster} {w : World} (run : Operates s R w) (entries : List (QueueEntry Body))
      (handed : ∀ id, R.held.count id + (entries.filterMap QueueEntry.fiber?).count id ≤
        w.fibers.handlesOf id) :
      Operates s (R.posted entries) ((enqueue s entries).on w).2
  /-- A run loop starts, with an idle fiber that it is given. -/
  | hire {R : Roster} {w : World} {l : Loop} (run : Operates s R w) (serves : l.scheduler = s)
      (pool : l.pool = []) (handed : R.held.count l.idleFiber < w.fibers.handlesOf l.idleFiber) :
      Operates s { R with crew := ⟨l, .free⟩ :: R.crew } w
  | turn {R R' : Roster} {rest : List Worker} {l : Loop} {w : World} (run : Operates s R w)
      (worker : R.crew.Perm (⟨l, .free⟩ :: rest)) (taken : TurnTaken R.posts R.reuses rest l w R') :
      Operates s R' (w.perform (turn l)).2
  | turnedFiber {R : Roster} {rest : List Worker} {l : Loop} {id : FiberId} {w : World}
      {left : FiberState} (run : Operates s R w)
      (worker : R.crew.Perm (⟨l, .fiber id⟩ :: rest))
      (back : w.CameBack (R.held.count id) id left) :
      Operates s (.settled rest R.posts R.reuses l id (.ofFiber left))
        (w.perform (turnedFiber l id left)).2
  | turnedCallback {R : Roster} {rest : List Worker} {l : Loop} {id : FiberId} {w : World}
      {left : FiberState} (run : Operates s R w)
      (worker : R.crew.Perm (⟨l, .callback id⟩ :: rest))
      (back : w.CameBack (R.held.count id) id left) :
      Operates s (.settled rest R.posts R.reuses l id
          (.ofCallback left l.pool.length ((w.schedulers.get? s).getD default).config.pool))
        (w.perform (turnedCallback l id left)).2

theorem Unworked.sound (h : Unworked s w) : Sound s .empty w := by
  have none : ∀ id, w.fibers.standing id = Option.none := by
    rw [h.fibers]
    exact fun _ => rfl
  refine ⟨⟨h.thread, ⟨⟨?_, ?_, ?_⟩, ?_, ?_, ?_⟩⟩, h.queue, fun _ => Nat.zero_le _, nofun,
    List.nodup_nil, nofun, nofun, nofun⟩
  · exact fun f g q hq => nomatch (none f).symm.trans hq
  · exact fun f g q hq => nomatch (none g).symm.trans hq
  · exact fun id q hq => nomatch (none id).symm.trans hq
  · exact fun i c hc => nomatch (h.aboard i).symm.trans hc
  · exact fun i j c hc => nomatch (h.aboard i).symm.trans hc
  · intro id r hr
    rw [h.fibers] at hr
    cases hr

theorem BodyCall.onward (fit : w.Fit) {call : BodyCall} (allowed : call.Allowed w) :
    Onward w (w.perform call.act).2 := by
  have leaves : w.inFiber = true → ∃ d, w.thread.current = some d ∧ w.runner = d := by
    intro inside
    cases current : w.thread.current with
    | none =>
      rw [World.inFiber, current] at inside
      cases inside
    | some d =>
      refine ⟨d, rfl, ?_⟩
      rw [World.runner, current]
      rfl
  cases call with
  | make body size inScheduler =>
    have mapped := Onward.even fit (.kernel w (w.kernel.mapStack size).1)
    rcases makeFiber_on allowed size inScheduler w with
      ⟨e, w', ended, quiet⟩ | ⟨stack, w', ended, quiet⟩
    · have done : (BodyCall.make body size inScheduler).act.on w =
          (.error (.failure (.fault e)), w') := Act.on_bind_ok ended
      rw [perform_of_failure done]
      exact mapped.trans (.quiet mapped.fit quiet)
    · have done : (BodyCall.make body size inScheduler).act.on w =
          (.ok (.done (.nat (w.fibers.lastId + 1))), w') := Act.on_bind_ok ended
      rw [perform_of_ok done]
      have made := mapped.trans (.withFiber mapped.fit body stack inScheduler)
      exact made.trans (.quiet made.fit quiet)
  | resume target =>
    rcases resume_onward fit allowed with ⟨v, w', rejected, on⟩ | ⟨tr, accepted, _, on⟩
    · have done : (BodyCall.resume target).act.on w = _ := rejected
      rw [perform_of_panic done]
      exact on
    · have done : (BodyCall.resume target).act.on w = _ := accepted
      rw [perform_of_ok done]
      exact on
  | suspend left => exact yieldTo_onward fit allowed left
  | returns =>
    obtain ⟨d, current, runner⟩ := leaves allowed.2
    have goes : BodyCall.returns.act.on w = (finish d .term).on w := by
      rw [BodyCall.act, Act.on_bind_get, runner]
    rw [perform_congr goes]
    exact finish_onward fit allowed.1 current .term
  | panics p =>
    obtain ⟨d, current, runner⟩ := leaves allowed.2
    have goes : (BodyCall.panics p).act.on w = (finishPanicked d p).on w := by
      rw [BodyCall.act, Act.on_bind_get, runner]
    rw [perform_congr goes]
    exact finishPanicked_onward fit allowed.1 current p

theorem Sound.turned {R' : Roster} (h : Sound s ⟨⟨l, .free⟩ :: rest, posts, reuses⟩ w)
    (taken : TurnTaken posts reuses rest l w R') :
    Sound s R' (w.perform (turn l)).2 := by
  obtain rfl : l.scheduler = s := h.serves _ List.mem_cons_self
  cases taken with
  | ends none finished =>
    obtain ⟨w', done, sound⟩ := h.ends finished
    rw [perform_of_ok ((turn_of_none h.queue none).trans done)]
    exact sound
  | idles none lasts free =>
    obtain ⟨u, goes, free', sound⟩ := h.idles lasts
    exact sound.resumed ((turn_of_none h.queue none).trans goes) (free' free)
  | @wakes p f found task resumable free =>
    have goes := turn_of_next h.queue found
    rw [task] at goes
    have same : Untouched w (w.looked l) := (turn_looks h.queue).1
    have sound := h.wakes found task
    refine (sound.onward (.pushed sound.fit (.loopFiber l f))).resumed
      (goes.trans (turnFiber_wakes ?_)) (approachable_of_same same h.fit.thread _ free)
    rw [same.fibers]
    exact resumable
  | skips found task ended =>
    have goes := turn_of_next h.queue found
    rw [task] at goes
    obtain ⟨w', done, sound⟩ := h.skips found task ended
    rw [perform_of_ok (goes.trans done)]
    exact sound
  | @handsOn p body id pool found task pooled =>
    have goes := turn_of_next h.queue found
    rw [task] at goes
    obtain ⟨u, resumes, free, sound⟩ := h.handsOn pooled body
    exact sound.resumed (goes.trans resumes) free
  | @makes p body usable found task none stack =>
    have goes := turn_of_next h.queue found
    rw [task] at goes
    obtain ⟨u, resumes, free, sound⟩ := h.makes none stack body
    exact sound.resumed (goes.trans resumes) free
  | drops found task none stack spare queue =>
    obtain ⟨same, left, _⟩ := turn_looks h.queue
    exact h.looks.keeps (spare.fit h.fit) (same.fibers ▸ spare.keeps) (queue.trans left.symm)

theorem Operates.sound (run : Operates s R w) : Sound s R w := by
  induction run with
  | start unworked => exact unworked.sound
  | elsewhere _ h queue ih => exact ih.outside h queue
  | call _ call allowed ih => exact ih.onward (BodyCall.onward ih.fit allowed)
  | enter _ current ih => exact ih.onward (.entered ih.fit current)
  | queue _ entries handed ih =>
    obtain ⟨v, queued, same, queue⟩ := enqueue_to ih.queue entries
    rw [queued]
    exact ih.posted same queue handed
  | @hire R w l _ serves pool handed ih =>
    refine ⟨ih.fit, ih.queue, fun id => ?_, fun x mem => ?_, ?_, ?_, fun x mem => ?_, ih.dated⟩
    · have covered := ih.covered id
      have more : (Roster.held ⟨⟨l, .free⟩ :: R.crew, R.posts, R.reuses⟩).count id =
          R.held.count id + [l.idleFiber].count id := by
        rw [held_cons, Worker.handles, pool, Nat.add_comm]
        rfl
      rw [more]
      by_cases idle : l.idleFiber = id
      · rw [idle] at handed ⊢
        rw [List.count_singleton_self]
        exact handed
      · rw [List.count_cons_of_ne idle]
        exact covered
    · rcases List.mem_cons.mp mem with rfl | mem
      · exact serves
      · exact ih.serves x mem
    · change (l.pool ++ [] ++ R.own).Nodup
      rw [pool]
      exact ih.nodup
    · change ∀ id ∈ l.pool ++ [] ++ R.own, _
      rw [pool]
      exact ih.own
    · rcases List.mem_cons.mp mem with rfl | mem
      · rw [pool]
        exact fun id mem => absurd mem List.not_mem_nil
      · exact ih.pooled x mem
  | turn _ worker taken ih => exact (ih.perm worker).turned taken
  | turnedFiber _ worker back ih =>
    refine (ih.perm worker).turnedFiber ?_
    rwa [held_perm worker]
  | turnedCallback _ worker back ih =>
    refine (ih.perm worker).turnedCallback ?_
    rwa [held_perm worker]

/-- The effect takes the thread to the stack of a fiber, which goes on where it was left. -/
structure World.GoesOn (w : World) (act : Act Signal) (f : FiberId) : Prop where
  told : (w.perform act).1 = .done .null
  current : (w.perform act).2.thread.current = some f
  frames : (w.perform act).2.thread.frames = (w.saved.get? f).getD []

namespace Sound

/-- A worker may be taken to be the first one, with its hands free. -/
theorem free (h : Sound s R w) (mem : x ∈ R.crew) :
    ∃ rest, Sound s ⟨⟨x.loop, .free⟩ :: rest, R.posts, R.reuses⟩ w := by
  obtain ⟨before, after, crew⟩ := List.append_of_mem mem
  have perm : R.crew.Perm (x :: (before ++ after)) := by
    rw [crew]
    exact List.perm_middle
  exact ⟨before ++ after, (h.perm perm).frees⟩

theorem resumed_no_reset {act : Act Signal} {u : World} (goes : act.on u = (resume f).on w)
    (n : Nat) (state : FiberState) :
    (u.perform act).1 ≠ .raised (.violation (.resetInState n state)) := by
  rcases resume_on_cases f w with ⟨v, w', rejected, _, other⟩ | ⟨tr, _, _, accepted⟩
  · rw [perform_of_panic (goes.trans rejected)]
    intro same
    cases same
    exact other n state rfl
  · rw [perform_of_ok (goes.trans accepted)]
    cases tr.told <;> nofun

/-- Whatever a turn finds, it does not break the rule of resets. -/
theorem turn_no_reset (h : Sound s R w) (mem : x ∈ R.crew) (n : Nat) (state : FiberState) :
    (w.perform (turn x.loop)).1 ≠ .raised (.violation (.resetInState n state)) := by
  obtain ⟨rest, h⟩ := h.free mem
  obtain rfl : x.loop.scheduler = s := h.serves ⟨x.loop, .free⟩ List.mem_cons_self
  have same : Untouched w (w.looked x.loop) := (turn_looks h.queue).1
  have quiet : ∀ {act : Act Signal} {w'}, (turn x.loop).on w = act.on (w.looked x.loop) →
      act.on (w.looked x.loop) = (.ok (.done .null), w') →
      (w.perform (turn x.loop)).1 ≠ .raised (.violation (.resetInState n state)) := by
    intro act w' goes done
    rw [perform_of_ok (goes.trans done)]
    nofun
  cases next : nextPost R.posts w x.loop with
  | none =>
    have goes := turn_of_none h.queue next
    cases finished : (w.fibers.state x.loop.idleFiber).isTerminal with
    | true =>
      obtain ⟨w', done, _⟩ := h.ends finished
      exact quiet goes done
    | false =>
      obtain ⟨u, resumes, _⟩ := h.idles finished
      exact resumed_no_reset (goes.trans resumes) n state
  | some p =>
    have goes := turn_of_next h.queue next
    cases task : p.entry.task with
    | fiber f =>
      rw [task] at goes
      cases resumable : (w.fibers.state f).isResumable with
      | true =>
        have there : ((w.looked x.loop).fibers.state f).isResumable = true := by
          rw [same.fibers, resumable]
        exact resumed_no_reset (goes.trans (turnFiber_wakes there)) n state
      | false =>
        obtain ⟨w', done, _⟩ := h.skips next task resumable
        exact quiet goes done
    | callback body =>
      rw [task] at goes
      cases pooled : x.loop.pool with
      | cons id pool =>
        obtain ⟨u, resumes, _⟩ := h.handsOn pooled body
        exact resumed_no_reset (goes.trans resumes) n state
      | nil =>
        cases stack : w.stackFor x.loop with
        | ok usable =>
          obtain ⟨u, resumes, _⟩ := h.makes pooled stack body
          exact resumed_no_reset (goes.trans resumes) n state
        | error e =>
          obtain ⟨w', done⟩ := turnCallback_drops pooled stack body
          exact quiet goes done

/-- A turn that takes a fiber which may be resumed goes on with it, if no rule forbids that. -/
theorem turn_wakes (h : Sound s R w) (mem : x ∈ R.crew) {p : Post}
    (next : nextPost R.posts w x.loop = some p) (task : p.entry.task = .fiber f)
    (resumable : (w.fibers.state f).isResumable = true)
    (free : w.fibers.Approachable w.thread.current f) :
    (∃ v, (w.perform (turn x.loop)).1 = .raised (.violation v)) ∨ w.GoesOn (turn x.loop) f := by
  obtain ⟨rest, h⟩ := h.free mem
  obtain rfl : x.loop.scheduler = s := h.serves ⟨x.loop, .free⟩ List.mem_cons_self
  have same : Untouched w (w.looked x.loop) := (turn_looks h.queue).1
  have goes := turn_of_next h.queue next
  rw [task] at goes
  have there : ((w.looked x.loop).fibers.state f).isResumable = true := by
    rw [same.fibers, resumable]
  have goes := goes.trans (turnFiber_wakes there)
  have fit : ((w.looked x.loop).pushed (.loopFiber x.loop f)).Fit :=
    (h.fit.untouched same).pushed _
  rcases resume_onward fit (approachable_of_same same h.fit.thread _ free) with
    ⟨v, w', rejected, _⟩ | ⟨tr, accepted, rfl, _⟩
  · exact .inl ⟨v, by rw [perform_of_panic (goes.trans rejected)]⟩
  · have ended := perform_of_ok (goes.trans accepted)
    obtain ⟨_, current, frames⟩ := followed_thread fit.thread tr
    refine .inr ⟨by rw [ended], by rw [ended, current], ?_⟩
    rw [ended, frames]
    exact congrArg (fun saved : Table FiberId (List Frame) => (saved.get? tr.target).getD [])
      same.saved

end Sound

/-- In every run of the workers of a scheduler, whatever the sizes of their pools and whatever
handles of fibers the bodies keep and queue: a pool never breaks the rule of resets, and the body
that an entry's fiber goes on with is the one that it had when the entry was queued, unless a pool
handed the fiber to another callback while the entry waited; then it is that one's. -/
theorem recycled_fibers_serve_their_entries (run : Operates s R w) :
    w.queueOf s = some (R.posts.map (·.entry)) ∧
      (∀ p ∈ R.posts, ∀ f, p.entry.task = .fiber f →
        (p.meant = R.reuses f ↔ p.overtaken = false)) ∧
      ∀ x ∈ R.crew,
        (∀ id ∈ x.loop.pool, ∀ body,
          (resetFiber id body).on w = (.ok (), w.restarted id body)) ∧
        (∀ n state,
          (w.perform (turn x.loop)).1 ≠ .raised (.violation (.resetInState n state))) ∧
        ∀ p f, nextPost R.posts w x.loop = some p → p.entry.task = .fiber f →
          (w.fibers.state f).isResumable = true →
          w.fibers.Approachable w.thread.current f →
          (∃ v, (w.perform (turn x.loop)).1 = .raised (.violation v)) ∨
            w.GoesOn (turn x.loop) f := by
  have h := run.sound
  refine ⟨h.queue, fun p mem f task => ?_, fun x mem => ⟨fun id pooled => h.reset_on mem pooled,
    h.turn_no_reset mem, fun p f next task resumable free =>
      h.turn_wakes mem next task resumable free⟩⟩
  have waits : p.entry.fiber? = some f := by rw [QueueEntry.fiber?, task]
  exact (h.dated p mem f waits).2

/-- A fiber is queued with a handle of its own, as a body queues the fiber that it runs on. -/
theorem Operates.queueKept (run : Operates s R w) {r : FiberRecord Body}
    (hr : w.fibers.get? id = some r) :
    Operates s (R.posted [⟨.fiber id, none⟩])
      ((enqueue s [⟨.fiber id, none⟩]).on { w with fibers := w.fibers.retain id }).2 := by
  have records : ∀ j, (w.fibers.retain id).get? j =
      if j = id then some { r with handles := r.handles + 1 } else w.fibers.get? j := by
    intro j
    rw [FiberTable.retain, FiberTable.get?_modify]
    split
    · next hj =>
      rw [hj, hr]
      rfl
    · rfl
  have covered := run.sound.covered
  refine Operates.queue (w := { w with fibers := w.fibers.retain id })
    (run.elsewhere ⟨fun j q hq => .inl ?_, fun j gone => ?_, rfl, run.sound.fit.thread,
      fun _ => .inl rfl⟩ rfl) _ fun j => ?_
  · have enough := covered j
    rw [FiberTable.handlesOf_of_get? hq] at enough
    change ∃ n, _ ∧ (w.fibers.retain id).get? j = _
    rw [records]
    split
    · next hj =>
      subst hj
      obtain rfl := Option.some.inj (hr.symm.trans hq)
      exact ⟨r.handles + 1, by omega, rfl⟩
    · exact ⟨q.handles, enough, hq⟩
  · change (w.fibers.retain id).get? j = none
    rw [records, if_neg, gone]
    rintro rfl
    exact nomatch hr.symm.trans gone
  · have enough := covered j
    change _ + [id].count j ≤ FiberTable.handlesOf (w.fibers.retain id) j
    unfold FiberTable.handlesOf at enough ⊢
    rw [records]
    by_cases hj : j = id
    · subst hj
      rw [hr] at enough
      rw [if_pos rfl, List.count_singleton_self]
      exact Nat.succ_le_succ enough
    · rw [if_neg hj, List.count_cons_of_ne (Ne.symm hj)]
      exact enough

/-- A scheduler whose only worker keeps one fiber for callbacks. -/
def poolWorld : World :=
  { World.start ⟨#[]⟩ .frozen .empty .fresh false none "main" with
    threads := Table.empty.put mainThread (.fresh [] (some 1))
    schedulers := Table.empty.put 1
      { config := SchedulerConfig.standard
        hooks := .parking .fresh
        shared := .fresh
        root := none
        owner := none
        workers := []
        threadIds := 0
        handles := 1 } }

theorem poolWorld_unworked : Unworked 1 poolWorld where
  thread := ⟨_, rfl⟩
  fibers := rfl
  aboard i := by
    change ((Table.empty.put mainThread (Thread.fresh [] (some 1))).get? i).bind _ = none
    rw [Table.get?_put]
    split <;> rfl
  queue := rfl

def poolLoop (pool : List FiberId) : Loop := ⟨1, 0, ⟨1⟩, pool⟩

/-- A callback queues its own fiber and returns; the pool hands the fiber to the next callback. -/
theorem queued_fiber_is_handed_on : ∃ R w p, Operates 1 R w ∧ R.posts = [p] ∧
    p.entry.task = .fiber ⟨2⟩ ∧ p.meant = 0 ∧ R.reuses ⟨2⟩ = 1 ∧ p.overtaken = true ∧
    w.thread.current = some ⟨2⟩ := by
  have hired := ((Operates.start poolWorld_unworked).call
    (.make (.idle 1) 131072 true) rfl).hire (l := poolLoop []) rfl rfl (by decide +kernel)
  have queued := hired.queue
    [⟨.callback (.script 0 "first"), none⟩, ⟨.callback (.script 1 "second"), none⟩]
    hired.sound.covered
  have alone := fun x : Worker => List.Perm.refl [x]
  have first := queued.turn (alone ⟨poolLoop [], .free⟩) (.makes rfl rfl rfl rfl)
  have begun := first.enter (c := ⟨2⟩) rfl
  have kept := @Operates.queueKept _ _ _ ⟨2⟩ begun _ rfl
  have returned := kept.call .returns ⟨fun c r hc hr => by cases hc; cases hr; rfl, rfl⟩
  have pooled := @Operates.turnedCallback _ _ _ _ _ _ .term returned (alone _)
    ⟨_, rfl, rfl, .inl ⟨rfl, nofun, rfl⟩⟩
  have handed := pooled.turn (alone _) (.handsOn rfl rfl rfl)
  have dated := (recycled_fibers_serve_their_entries handed).2.1 _ List.mem_cons_self ⟨2⟩ rfl
  refine ⟨_, _, _, handed, rfl, rfl, rfl, rfl, ?_, rfl⟩
  exact eq_true_of_ne_false fun fresh => absurd (dated.mpr fresh) nofun

/-- The first callback queues its own fiber. The second one suspends itself, and nobody queues it.
-/
def selfQueueingScript : Program :=
  ⟨#[[.perform "sched_new" (.scheduler (.new "s" ⟨false, .empty, []⟩ none)),
      .perform "start" (.scheduler (.start "s")),
      .perform "schedule" (.scheduler (.schedule "s" (.callback (.block 1) (some "first")))),
      .perform "schedule" (.scheduler (.schedule "s" (.callback (.block 2) (some "second")))),
      .perform "schedule" (.scheduler (.schedule "s" (.callback (.block 3) (some "third")))),
      .perform "stop" (.scheduler (.stop "s"))],
    [.perform "log" (.fiber (.log (.text "begins"))),
      .perform "schedule" (.scheduler (.schedule "s" .self)),
      .perform "log" (.fiber (.log (.text "ends")))],
    [.perform "log" (.fiber (.log (.text "waits"))),
      .perform "yield_hold" (.fiber .yieldHold),
      .perform "log" (.fiber (.log (.text "goes on")))],
    [.perform "log" (.fiber (.log (.text "runs")))]]⟩

def selfQueueingAfter (rounds : Nat) : World :=
  (World.start selfQueueingScript .frozen .empty .fresh false none "main").runUpTo rounds

/-- The entry that the first callback queued is taken when its fiber has run the second one up to
its suspension, and wakes that one. -/
theorem queued_fiber_wakes_later_callback :
    (selfQueueingAfter 20).thread.current = some ⟨4⟩ ∧
      ((selfQueueingAfter 20).queueOf 1).bind List.getLast? = some ⟨.fiber ⟨4⟩, none⟩ ∧
      (selfQueueingAfter 24).fibers.state ⟨4⟩ = .term ∧
      (selfQueueingAfter 37).fibers.state ⟨4⟩ = .hold ∧
      (selfQueueingAfter 37).queueOf 1 = some [⟨.fiber ⟨4⟩, none⟩] ∧
      (selfQueueingAfter 38).thread.current = some ⟨4⟩ ∧
      (selfQueueingAfter 60).reports.map (fun a => (a.1, a.2.compact)) =
        [("sched_new", "\"ok\""), ("start", "\"ok\""), ("schedule", "1"), ("schedule", "2"),
          ("schedule", "3"), ("log", "\"begins\""), ("schedule", "3"), ("log", "\"ends\""),
          ("log", "\"waits\""), ("log", "\"runs\""), ("yield_hold", "null"),
          ("log", "\"goes on\""), ("stop", "0")] := by
  refine ⟨?_, ?_, ?_, ?_, ?_, ?_, ?_⟩ <;> decide +kernel

end Fibers.Script
