import Fibers.Proofs.Effect
import Fibers.Proofs.Table

/-!
Effects during which no time passes. The clock and the way in which time passes stay as they are,
and so does the number of members that a set of descriptors reports at a time. Most effects do not
call the system at all; the others wake a poller, map or unmap a stack, or end a reactor.
-/

namespace Fibers.Script

/-- No time has passed; if `still`, the system is as it was. -/
structure Gentle (still : Prop) (w w' : World) : Prop where
  clock : w'.clock = w.clock
  timing : w'.timing = w.timing
  sets : ∀ id e', w'.kernel.epolls.get? id = some e' →
    ∃ e, w.kernel.epolls.get? id = some e ∧ e'.maxEvents = e.maxEvents
  kernel : still → w'.kernel = w.kernel

namespace Gentle

variable {still : Prop} {u v w : World}

theorem of_same (clock : v.clock = u.clock) (timing : v.timing = u.timing)
    (kernel : v.kernel = u.kernel) : Gentle still u v :=
  ⟨clock, timing, fun _ e found => ⟨e, kernel ▸ found, rfl⟩, fun _ => kernel⟩

theorem refl (w : World) : Gentle still w w := .of_same rfl rfl rfl

theorem trans (h : Gentle still u v) (g : Gentle still v w) : Gentle still u w where
  clock := g.clock.trans h.clock
  timing := g.timing.trans h.timing
  sets id e'' found := by
    obtain ⟨e', found', same⟩ := g.sets id e'' found
    obtain ⟨e, found, same'⟩ := h.sets id e' found'
    exact ⟨e, found, same.trans same'⟩
  kernel yes := (g.kernel yes).trans (h.kernel yes)

theorem quiet (h : Quiet u v) : Gentle still u v := by
  obtain ⟨_, _, _, rfl, _⟩ := h
  exact .of_same rfl rfl rfl

end Gentle

/-- However it ends, an effect takes no time. -/
def Act.Gently {α : Type} (still : Prop) (act : Act α) : Prop :=
  ∀ w, Gentle still w (act.on w).2

namespace Act.Gently

variable {still : Prop} {α β : Type}

theorem pure (a : α) : (Pure.pure a : Act α).Gently still := fun w => .refl w

theorem throw (e : Stop) : (MonadExcept.throw e : Act α).Gently still := fun w => .refl w

theorem bind {x : Act α} {f : α → Act β} (hx : x.Gently still) (hf : ∀ a, (f a).Gently still) :
    (x >>= f).Gently still := by
  intro w
  have first := hx w
  rw [on_bind]
  rcases done : x.on w with ⟨_ | a, v⟩
  all_goals rw [done] at first
  · exact first
  · exact first.trans (hf a v)

theorem get_bind {f : World → Act β} (hf : ∀ w, (f w).Gently still) :
    ((MonadState.get : Act World) >>= f).Gently still := fun w => hf w w

theorem change {f : World → World} (hf : ∀ w, Gentle still w (f w)) :
    (modify f : Act Unit).Gently still := hf

/-- An effect that is done or not. -/
theorem ite {c : Prop} [Decidable c] {x y : Act α} (hx : x.Gently still) (hy : y.Gently still) :
    (if c then x else y).Gently still := by
  split
  · exact hx
  · exact hy

/-- An effect that is not always done, before one that is. -/
theorem when {c : Prop} [Decidable c] {x : Act Unit} {f : Unit → Act β} (hx : x.Gently still)
    (hf : (f ()).Gently still) : (if c then x >>= f else f ()).Gently still :=
  ite (bind hx fun _ => hf) hf

end Act.Gently

open Act (Gently)

variable {still : Prop} {α : Type}

theorem log_gently (l : Log.Level) (text : String) : (log l text).Gently still := by
  intro w
  obtain ⟨w', done, quiet⟩ := log_quiet l text w
  rw [done]
  exact .quiet quiet

theorem violate_gently (v : Violation) : (violate v : Act α).Gently still :=
  .bind (log_gently _ _) fun _ => .throw _

theorem abort_gently : (abort : Act α).Gently still :=
  .bind (.change fun _ => .of_same rfl rfl rfl) fun _ => .throw _

theorem updateThread_gently (f : Thread → Thread) : (updateThread f).Gently still :=
  .change fun _ => .of_same rfl rfl rfl

theorem push_gently (f : Frame) : (push f).Gently still := updateThread_gently _

theorem report_gently (verb label : String) (d : Datum) : (report verb label d).Gently still :=
  .get_bind fun _ => .change fun _ => .of_same rfl rfl rfl

theorem allocate_gently (count size : Nat) : (allocate count size).Gently still :=
  .ite (.throw _) (.ite abort_gently (.pure _))

theorem retain_gently (h : Handle) : (retain h).Gently still :=
  .change fun w => by cases h <;> exact .of_same rfl rfl rfl

theorem retainAll_gently (hs : List Handle) : (retainAll hs).Gently still := by
  induction hs with
  | nil => exact .pure _
  | cons h hs ih => exact .bind (retain_gently h) fun _ => ih

theorem schedulerRecord_gently (s : SchedulerId) : (schedulerRecord s).Gently still :=
  .get_bind fun _ => .pure _

theorem schedulerName_gently (s : SchedulerId) : (schedulerName s).Gently still :=
  .bind (schedulerRecord_gently s) fun _ => .pure _

theorem updateScheduler_gently (s : SchedulerId) (f : SchedulerRecord → SchedulerRecord) :
    (updateScheduler s f).Gently still := .change fun _ => .of_same rfl rfl rfl

theorem updateShared_gently (s : SchedulerId) (f : Shared Body → Shared Body) :
    (updateShared s f).Gently still := updateScheduler_gently _ _

theorem currentOrMain_gently : currentOrMain.Gently still :=
  .get_bind fun _ => .bind (.change fun _ => .of_same rfl rfl rfl) fun _ =>
    .bind (updateThread_gently _) fun _ => .pure _

theorem follow_gently (t : FiberTable.Transfer Body) : (follow t).Gently still :=
  .get_bind fun _ => .bind (.change fun _ => .of_same rfl rfl rfl) fun _ =>
    .bind (updateThread_gently _) fun _ => .pure _

theorem followOr_gently (t : Except Violation (FiberTable.Transfer Body)) :
    (followOr t).Gently still := by
  cases t with
  | error v => exact violate_gently v
  | ok t => exact follow_gently t

theorem resume_gently (id : FiberId) : (resume id).Gently still :=
  .get_bind fun _ => followOr_gently _

theorem yieldTo_gently (s : FiberState) : (yieldTo s).Gently still :=
  .get_bind fun _ => followOr_gently _

theorem finish_gently (id : FiberId) (s : FiberState) : (finish id s).Gently still := by
  refine .bind (push_gently _) fun _ => .get_bind fun w => ?_
  split
  · exact follow_gently _
  · exact .bind (log_gently _ _) fun _ => abort_gently

theorem startBlock_gently (block : Nat) (label : String) : (startBlock block label).Gently still :=
  .get_bind fun _ => .bind (push_gently _) fun _ => .pure _

theorem onTimers_gently (set : Nat) (f : Timers TimerBody → Timers TimerBody × α) :
    (onTimers set f).Gently still :=
  .get_bind fun _ => .bind (.change fun _ => .of_same rfl rfl rfl) fun _ => .pure _

theorem startIdle_gently (s : SchedulerId) : (startIdle s).Gently still := by
  refine .get_bind fun w => ?_
  split
  · exact .pure _
  · refine .bind (schedulerRecord_gently s) fun r => ?_
    refine .bind (retainAll_gently _) fun _ => .bind (push_gently _) fun _ => ?_
    split
    · exact .bind (push_gently _) fun _ => .pure _
    · exact .bind (push_gently _) fun _ => .pure _
    · exact .bind (push_gently _) fun _ => .get_bind fun _ =>
        .bind (allocate_gently _ _) fun _ => .pure _

theorem turnedIdle_gently (l : Loop) : (turnedIdle l).Gently still :=
  .bind (updateShared_gently _ _) fun _ => .bind (push_gently _) fun _ => .pure _

/-- A call that leaves the sets of descriptors alone, or only queues members. -/
theorem kernel_gently {f : Kernel.State → Kernel.State × α}
    (sets : ∀ k id e', (f k).1.epolls.get? id = some e' →
      ∃ e, k.epolls.get? id = some e ∧ e'.maxEvents = e.maxEvents) :
    (kernel f).Gently False := fun w => ⟨rfl, rfl, sets w.kernel, False.elim⟩

theorem takeFault_epolls (k : Kernel.State) (c : Kernel.Call) :
    (k.takeFault c).1.epolls = k.epolls := by
  unfold Kernel.State.takeFault
  split <;> rfl

theorem wakePoller_gently (epoll : Nat) (failure : String) :
    (wakePoller epoll failure).Gently False := by
  refine .bind (kernel_gently fun k id e' found => ?_) fun res => ?_
  · unfold Kernel.State.wake at found
    have same := takeFault_epolls k .counterWrite
    rcases taken : k.takeFault .counterWrite with ⟨s, fault⟩
    rw [taken] at found same
    have same : s.epolls = k.epolls := same
    cases fault with
    | some n => exact ⟨e', same ▸ found, rfl⟩
    | none =>
      have found : (s.epolls.modify epoll Kernel.Epoll.signal).get? id = some e' := found
      rw [Table.get?_modify, same] at found
      split at found
      · obtain ⟨e, there, rfl⟩ := Option.map_eq_some_iff.mp found
        refine ⟨e, there, ?_⟩
        unfold Kernel.Epoll.signal Kernel.Epoll.enqueue
        split
        · split <;> rfl
        · rfl
      · exact ⟨e', found, rfl⟩
  · split
    · exact .pure _
    · exact log_gently _ _

theorem tickle_gently (s : SchedulerId) : (tickle s).Gently False := by
  refine .bind (schedulerRecord_gently s) fun r => ?_
  split
  · exact updateScheduler_gently _ _
  · exact updateScheduler_gently _ _
  · refine .get_bind fun w => ?_
    split
    · exact wakePoller_gently _ _
    · exact .pure _

theorem tickleTimes_gently (s : SchedulerId) (n : Nat) : (tickleTimes s n).Gently False := by
  induction n with
  | zero => exact .pure _
  | succ n ih => exact .bind (tickle_gently s) fun _ => ih

theorem enqueue_gently (s : SchedulerId) (added : List (QueueEntry Body)) :
    (enqueue s added).Gently False := by
  refine .bind (schedulerRecord_gently s) fun r => ?_
  exact .bind (updateShared_gently _ _) fun _ => .ite (tickle_gently s) (.pure _)

theorem takeNext_gently (s : SchedulerId) (worker : Nat) : (takeNext s worker).Gently False := by
  refine .get_bind fun w => .bind (schedulerRecord_gently s) fun r => ?_
  exact .bind (updateShared_gently _ _) fun _ => .when (tickle_gently s) (.pure _)

theorem unmapStack_gently : unmapStack.Gently False := by
  refine .bind (kernel_gently fun k id e' found => ⟨e', ?_, rfl⟩) fun e => ?_
  · rw [← takeFault_epolls k .munmap]
    exact found
  · split
    · exact log_gently _ _
    · exact .pure _

theorem mapStack_gently (size : Nat) : (mapStack size).Gently False := by
  refine .bind (kernel_gently fun k id e' found => ⟨e', ?_, rfl⟩) fun res => ?_
  · have same : (k.mapStack size).1.epolls = k.epolls := by
      have mmap := takeFault_epolls k .mmap
      unfold Kernel.State.mapStack
      split
      · rfl
      · generalize k.takeFault .mmap = taken at mmap
        obtain ⟨s, fault⟩ := taken
        have mmap : s.epolls = k.epolls := mmap
        have mprotect := takeFault_epolls s .mprotect
        cases fault with
        | some n => exact mmap
        | none =>
          dsimp only
          split
          · exact mmap
          · generalize s.takeFault .mprotect = taken at mprotect
            obtain ⟨s', fault'⟩ := taken
            have mprotect : s'.epolls = s.epolls := mprotect
            cases fault' with
            | some n => exact (takeFault_epolls s' .munmap).trans (mprotect.trans mmap)
            | none => exact mprotect.trans mmap
    exact same ▸ found
  · split
    · exact .pure _
    · exact .bind (log_gently _ _) fun _ => .pure _

theorem endFiber_gently (id : FiberId) (r : FiberRecord Body) : (endFiber id r).Gently False := by
  refine .bind (.change fun _ => .of_same rfl rfl rfl) fun _ => ?_
  refine .when (log_gently _ _) (.when unmapStack_gently ?_)
  exact .bind (.change fun _ => .of_same rfl rfl rfl) fun _ => .pure _

theorem endScheduler_gently (id : SchedulerId) (r : SchedulerRecord) :
    (endScheduler id r).Gently False := by
  refine .bind (.change fun _ => .of_same rfl rfl rfl) fun _ => ?_
  exact .when (log_gently _ _) (.bind (log_gently _ _) fun _ => .pure _)

theorem endReactor_gently (id : ReactorId) (r : ReactorRecord) :
    (endReactor id r).Gently False := by
  refine .when (log_gently _ _) (.bind (.change fun w => ?_) fun _ => ?_)
  · refine ⟨rfl, rfl, fun j e' found => ?_, False.elim⟩
    have found : (w.kernel.epolls.erase r.epoll).get? j = some e' := found
    rw [Table.get?_erase] at found
    split at found
    · cases found
    · exact ⟨e', found, rfl⟩
  · refine .bind (.get_bind fun _ => ?_) fun _ => .pure _
    exact .bind (.change fun _ => .of_same rfl rfl rfl) fun _ => .pure _

theorem releaseOne_gently (h : Handle) : (releaseOne h).Gently False := by
  refine .get_bind fun w => ?_
  cases h with
  | fiber id =>
    dsimp only
    split
    · exact .pure _
    · split
      · exact .bind (.change fun _ => .of_same rfl rfl rfl) fun _ => .pure _
      · exact endFiber_gently _ _
  | scheduler id =>
    dsimp only
    split
    · exact .pure _
    · split
      · exact .bind (.change fun _ => .of_same rfl rfl rfl) fun _ => .pure _
      · exact endScheduler_gently _ _
  | reactor id =>
    dsimp only
    split
    · exact .pure _
    · split
      · exact .bind (.change fun _ => .of_same rfl rfl rfl) fun _ => .pure _
      · exact endReactor_gently _ _

theorem releaseUpTo_gently (n : Nat) (hs : List Handle) : (releaseUpTo n hs).Gently False := by
  induction n generalizing hs with
  | zero => cases hs <;> exact .pure _
  | succ n ih =>
    cases hs with
    | nil => exact .pure _
    | cons h hs => exact .bind (releaseOne_gently h) fun held => ih (held ++ hs)

theorem release_gently (hs : List Handle) : (release hs).Gently False :=
  .get_bind fun _ => releaseUpTo_gently _ hs

theorem makeFiber_gently (body : Body) (size : Nat) (inScheduler : Bool) :
    (makeFiber body size inScheduler).Gently False := by
  refine .bind (mapStack_gently size) fun res => ?_
  split
  · exact .bind (release_gently _) fun _ => .pure _
  · refine .get_bind fun w => .bind (.change fun _ => .of_same rfl rfl rfl) fun _ => ?_
    exact .bind (log_gently _ _) fun _ => .pure _

theorem resetFiber_gently (id : FiberId) (body : Body) : (resetFiber id body).Gently False := by
  refine .get_bind fun w => ?_
  dsimp only
  split
  · exact .bind (log_gently _ _) fun _ => .bind (release_gently _) fun _ => .throw _
  · exact .bind (.change fun _ => .of_same rfl rfl rfl) fun _ => release_gently _

theorem startWorker_gently (s : SchedulerId) (worker : Nat) :
    (startWorker s worker).Gently False := by
  refine .bind (updateThread_gently _) fun _ => .bind (schedulerRecord_gently s) fun r => ?_
  refine .bind (log_gently _ _) fun _ => .bind (makeFiber_gently _ _ _) fun made => ?_
  split
  · exact .bind (log_gently _ _) fun _ => .pure _
  · exact .bind (push_gently _) fun _ => .bind (allocate_gently _ _) fun _ => .pure _

theorem startTimer_gently (b : TimerBody) : (startTimer b).Gently False := by
  cases b with
  | script block label => exact startBlock_gently _ _
  | guarded object block label =>
    refine .get_bind fun w => ?_
    exact .ite (startBlock_gently _ _) (.pure _)
  | wake s f =>
    exact .bind (retain_gently _) fun _ => .bind (enqueue_gently _ _) fun _ => .pure _

theorem startBody_gently (b : Body) : (startBody b).Gently False := by
  cases b with
  | script block label => exact startBlock_gently _ _
  | timer b => exact .bind (push_gently _) fun _ => startTimer_gently b
  | root s =>
    refine .get_bind fun w => ?_
    split
    · exact .pure _
    · exact .bind (retain_gently _) fun _ => .bind (push_gently _) fun _ =>
        startWorker_gently _ _
  | idle s => exact startIdle_gently s

theorem startFiber_gently (id : FiberId) : (startFiber id).Gently False := by
  refine .get_bind fun w => ?_
  dsimp only
  refine .bind (.change fun _ => .of_same rfl rfl rfl) fun _ => ?_
  split
  · exact finish_gently _ _
  · exact .bind (push_gently _) fun _ => startBody_gently _

theorem turn_gently (l : Loop) : (turn l).Gently False := by
  refine .bind (takeNext_gently _ _) fun e => ?_
  split
  · refine .get_bind fun w => ?_
    split
    · exact .bind (log_gently _ _) fun _ => .bind (release_gently _) fun _ => .pure _
    · exact .bind (updateShared_gently _ _) fun _ => .bind (push_gently _) fun _ =>
        resume_gently _
  · split
    · refine .get_bind fun w => ?_
      dsimp only
      split
      · exact .bind (push_gently _) fun _ => resume_gently _
      · exact .bind (log_gently _ _) fun _ => .bind (updateShared_gently _ _) fun _ =>
          .bind (release_gently _) fun _ => .bind (push_gently _) fun _ => .pure _
    · unfold turnCallback
      split
      · exact .bind (push_gently _) fun _ => .bind (resetFiber_gently _ _) fun _ =>
          resume_gently _
      · refine .bind (schedulerRecord_gently _) fun r => ?_
        refine .bind (makeFiber_gently _ _ _) fun made => ?_
        split
        · exact .bind (push_gently _) fun _ => resume_gently _
        · exact .bind (log_gently _ _) fun _ => .bind (updateShared_gently _ _) fun _ =>
            .bind (push_gently _) fun _ => .pure _

theorem endTurn_gently (l : Loop) (id : FiberId) (a : Aftermath) :
    (endTurn l id a).Gently False := by
  cases a with
  | requeue =>
    exact .bind (enqueue_gently _ _) fun _ => .bind (updateShared_gently _ _) fun _ =>
      .bind (push_gently _) fun _ => .pure _
  | recycle =>
    exact .bind (updateShared_gently _ _) fun _ => .bind (push_gently _) fun _ => .pure _
  | dismiss =>
    exact .bind (updateShared_gently _ _) fun _ => .bind (release_gently _) fun _ =>
      .bind (push_gently _) fun _ => .pure _

theorem turnedFiber_gently (l : Loop) (id : FiberId) (left : FiberState) :
    (turnedFiber l id left).Gently False :=
  .when (log_gently _ _) (endTurn_gently _ _ _)

theorem turnedCallback_gently (l : Loop) (id : FiberId) (left : FiberState) :
    (turnedCallback l id left).Gently False :=
  .bind (schedulerRecord_gently _) fun _ => endTurn_gently _ _ _

theorem notifyFront_gently (set : Nat) : (notifyFront set).Gently False := by
  refine .get_bind fun w => ?_
  split
  · exact .pure _
  · split
    · exact .change fun _ => .of_same rfl rfl rfl
    · exact wakePoller_gently _ _

theorem addTimer_gently (set : Nat) (delay : Duration) (callback : TimerBody) (recurring : Bool) :
    (addTimer set delay callback recurring).Gently False := by
  refine .get_bind fun w => .bind (onTimers_gently _ _) fun res => ?_
  split
  · exact .bind (release_gently _) fun _ => .throw _
  · exact .when (notifyFront_gently _) (.pure _)

theorem sleepFiber_gently (s : SchedulerId) (r : ReactorId) (d : Duration) :
    (sleepFiber s r d).Gently False := by
  refine .bind currentOrMain_gently fun id => .bind (retainAll_gently _) fun _ => ?_
  refine .bind (push_gently _) fun _ => .bind (retainAll_gently _) fun _ => ?_
  exact .get_bind fun _ => .bind (addTimer_gently _ _ _ _) fun _ => yieldTo_gently _

/-- A stop by a thread that may. -/
def stopRest (s : SchedulerId) (r : SchedulerRecord) : Act Signal := do
  updateShared s Shared.beginStop
  tickleTimes s r.config.threads
  push (.stopJoin s)
  match r.root with
  | none => return .done .null
  | some root =>
    let w ← get
    if (w.fibers.state root).isResumable && !w.isStopping s then
      retain (.fiber root)
      push (.release [.fiber root])
      resume root
    else return .done .null

theorem stopRest_gently (s : SchedulerId) (r : SchedulerRecord) :
    (stopRest s r).Gently False := by
  refine .bind (updateShared_gently _ _) fun _ => .bind (tickleTimes_gently _ _) fun _ => ?_
  refine .bind (push_gently _) fun _ => ?_
  split
  · exact .pure _
  · refine .get_bind fun w => .ite ?_ (.pure _)
    exact .bind (retain_gently _) fun _ => .bind (push_gently _) fun _ => resume_gently _

theorem stopWorkers_gently (s : SchedulerId) (r : SchedulerRecord) :
    (stopWorkers s r).Gently False := by
  refine .get_bind fun w => ?_
  dsimp only
  split
  · exact .bind (violate_gently _) fun _ => stopRest_gently s r
  · exact stopRest_gently s r

theorem stop_gently (s : SchedulerId) : (stop s).Gently False := by
  refine .bind (updateShared_gently _ _) fun _ => .bind (schedulerRecord_gently s) fun r => ?_
  refine .get_bind fun w => .ite ?_ (stopWorkers_gently s r)
  refine .bind (log_gently _ _) fun _ => .bind (updateShared_gently _ _) fun _ => ?_
  exact .get_bind fun v => .ite (.pure _) (stopWorkers_gently s r)

/-- A script that stops a scheduler takes no time for the call. -/
theorem stopCall_gently (verb label name : String) (rest : List Step) :
    (startSteps label (.perform verb (.scheduler (.stop name)) :: rest)).Gently False := by
  have calls : (startStep label (.perform verb (.scheduler (.stop name)))).Gently False := by
    refine .bind (push_gently _) fun _ => .bind (.get_bind fun w => ?_) fun s => ?_
    · unfold named
      split
      · exact .pure _
      · exact .throw _
    · refine .bind (push_gently _) fun _ => .bind ?_ fun _ => stop_gently s
      exact .bind (retain_gently _) fun _ => push_gently _
  cases rest with
  | nil => exact calls
  | cons step rest => exact .bind (push_gently _) fun _ => calls

theorem stopJoining_gently (s : SchedulerId) (threads : List ThreadId) :
    (stopJoining s threads).Gently still := by
  induction threads with
  | nil => exact .bind (schedulerName_gently s) fun _ => .bind (log_gently _ _) fun _ => .pure _
  | cons t threads ih =>
    refine .get_bind fun w => ?_
    split
    · exact .bind (push_gently _) fun _ => .bind (updateThread_gently _) fun _ => .pure _
    · exact .bind (schedulerName_gently s) fun _ => .when (log_gently _ _) ih

theorem stopJoin_gently (s : SchedulerId) : (stopJoin s).Gently still :=
  .bind (schedulerRecord_gently s) fun _ =>
    .bind (updateScheduler_gently _ _) fun _ => stopJoining_gently s _

end Fibers.Script
