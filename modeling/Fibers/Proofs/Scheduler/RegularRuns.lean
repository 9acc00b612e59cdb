import Fibers.Proofs.Scheduler.Regular
import Fibers.Proofs.Gentle
import Fibers.Proofs.Reactor.Sight

/-!
Worlds stay regular. No action, no frame and no wait leads out of them, so that all rounds of a
program stay in them from its start on.
-/

namespace Fibers.Script

open Act (Regularly)

variable {p : Program} {w : World} {α : Type}

@[simp] theorem notifyFront_regular (set : Nat) : (notifyFront set).Regularly p := by
  refine .bind .get fun w => ?_
  split
  · exact .pure _
  · split
    · exact .same fun _ => rfl
    · exact wakePoller_regular _ _

@[simp] theorem addTimer_regular (set : Nat) (delay : Duration) (callback : TimerBody)
    (recurring : Bool) : (addTimer set delay callback recurring).Regularly p := by
  refine .bind .get fun w => .bind (onTimers_regular _ _) fun res => ?_
  split
  · exact .bind (release_regular _) fun _ => .raise _
  · exact .when (notifyFront_regular _) (.pure _)

@[simp] theorem sleepFiber_regular (s : SchedulerId) (r : ReactorId) (d : Duration) :
    (sleepFiber s r d).Regularly p := by
  refine .bind currentOrMain_regular fun id => .bind (retainAll_regular _) fun _ => ?_
  refine .bind (push_regular trivial) fun _ => .bind (retainAll_regular _) fun _ => ?_
  exact .bind .get fun _ => .bind (addTimer_regular _ _ _ _) fun _ => yieldTo_regular _

@[simp] theorem sleepThread_regular (d : Duration) : (sleepThread d).Regularly p :=
  .bind .get fun _ => .ite (waitFor_regular _) (.bind (.same fun _ => rfl) fun _ => .pure _)

@[simp] theorem sleep_regular (d : Duration) : (sleep d).Regularly p := by
  refine .bind .get fun w => ?_
  split
  · split
    · exact .ite (sleepFiber_regular _ _ _) (sleepThread_regular _)
    · exact sleepThread_regular _
  · exact sleepThread_regular _

@[simp] theorem yieldNow_regular : yieldNow.Regularly p :=
  .bind .get fun _ => .ite (yieldTo_regular _) (.pure _)

theorem threads_pos_of_valid {c : SchedulerConfig} (valid : c.fault? = none) :
    0 < c.threads := by
  refine Nat.pos_of_ne_zero fun zero => ?_
  rw [SchedulerConfig.fault?, if_pos zero] at valid
  cases valid

@[simp] theorem makeScheduler_regular (config : SchedulerConfig) (hooks : Hooks) :
    (makeScheduler config hooks).Regularly p := by
  unfold makeScheduler
  split
  · exact .bind (release_regular _) fun _ => .pure _
  · next valid =>
    have workers : 0 < config.threads := threads_pos_of_valid valid
    refine .bind (.same fun _ => rfl) fun _ => .bind .get fun w => ?_
    refine .either ?_ fun rest => .bind (logError_regular _) fun _ =>
      .bind (release_regular _) fun _ => .bind (.raise _) fun _ => rest
    refine .bind freshId_regular fun id =>
      .bind (.change fun w h => h.put_scheduler id rfl workers) fun _ => ?_
    refine .either (.bind (logDebug_regular _) fun _ => .pure _) fun done =>
      .bind (makeFiber_regular _ _ _) fun root => ?_
    split
    · exact .bind (release_regular _) fun _ => .pure _
    · exact .bind (updateThread_same_regular fun _ => rfl) fun _ =>
        .bind (updateScheduler_regular (fun _ => rfl) fun _ _ mem => mem) fun _ => done

@[simp] theorem makeReactor_regular (config : ReactorConfig) :
    (makeReactor config).Regularly p := by
  unfold makeReactor
  split
  · exact .pure _
  · refine .bind (kernel_regular _) fun r => ?_
    split
    · exact .bind (logError_regular _) fun _ => .pure _
    · split
      · exact .pure _
      · exact .bind freshId_regular fun _ => .bind freshId_regular fun _ =>
          .bind (.same fun _ => rfl) fun _ => .pure _

@[simp] theorem startThread_regular {frames : List Frame} (isOf : ∀ f ∈ frames, f.IsOf p)
    (scheduler : Option SchedulerId) : (startThread frames scheduler).Regularly p :=
  .bind freshId_regular fun _ => .bind (.change fun _ h => h.put_thread _ isOf) fun _ => .pure _

@[simp] theorem joinThread_regular (id : ThreadId) : (joinThread id).Regularly p :=
  .bind (push_regular trivial) fun _ => waitFor_regular _

@[simp] theorem enterWorker_regular (s : SchedulerId) (worker : Nat) :
    (enterWorker s worker).Regularly p :=
  .bind (updateScheduler_regular (fun _ => rfl) fun _ _ mem => mem) fun _ =>
    .bind (updateThread_same_regular fun _ => rfl) fun _ =>
      .bind (push_regular trivial) fun _ => startWorker_regular _ _

@[simp] theorem leaveWorker_regular (s : SchedulerId) : (leaveWorker s).Regularly p :=
  .bind (updateThread_same_regular fun _ => rfl) fun _ => .bind (release_regular _) fun _ => .pure _

@[simp] theorem startWorkers_regular (s : SchedulerId) (name : String) (first count : Nat) :
    (startWorkers s name first count).Regularly p := by
  induction count generalizing first with
  | zero => exact .pure _
  | succ count ih =>
    refine .bind (kernel_regular _) fun r => ?_
    split
    · exact .bind (logError_regular _) fun _ => .pure _
    · refine .bind (retain_regular _) fun _ => .bind (startThread_regular ?_ _) fun _ =>
        .bind (updateScheduler_regular (fun _ => rfl) fun _ _ mem => mem) fun _ => ih _
      intro f mem
      rw [List.mem_singleton.mp mem]
      trivial

@[simp] theorem start_regular (s : SchedulerId) : (start s).Regularly p := by
  refine .bind (schedulerRecord_regular s) fun r => .ite (.pure _) ?_
  refine .bind (updateShared_regular fun _ _ mem => mem) fun _ =>
    .bind (startWorkers_regular _ _ _ _) fun r => ?_
  split
  · exact .fail _
  · exact .bind (push_regular trivial) fun _ => .bind (schedulerRecord_regular s) fun _ =>
      waitFor_regular _

@[simp] theorem startReady_regular (s : SchedulerId) : (startReady s).Regularly p :=
  .bind (schedulerRecord_regular s) fun _ => .bind (log_regular _ _) fun _ => .pure _

@[simp] theorem stopJoining_regular (s : SchedulerId) (threads : List ThreadId) :
    (stopJoining s threads).Regularly p := by
  induction threads with
  | nil => exact .bind (schedulerName_regular s) fun _ => .bind (log_regular _ _) fun _ => .pure _
  | cons t rest ih =>
    refine .bind .get fun w => ?_
    split
    · exact .bind (push_regular trivial) fun _ => waitFor_regular _
    · exact .bind (schedulerName_regular s) fun _ => .when (logError_regular _) ih

@[simp] theorem stopJoin_regular (s : SchedulerId) : (stopJoin s).Regularly p :=
  .bind (schedulerRecord_regular s) fun _ =>
    .bind (updateScheduler_regular (fun _ => rfl) fun _ _ mem => mem) fun _ =>
      stopJoining_regular _ _

theorem stopRest_regular (s : SchedulerId) (r : SchedulerRecord) : (stopRest s r).Regularly p := by
  refine .bind (updateShared_regular fun _ _ mem => mem) fun _ =>
    .bind (tickleTimes_regular _ _) fun _ => .bind (push_regular trivial) fun _ => ?_
  split
  · exact .pure _
  · refine .bind .get fun w => .ite ?_ (.pure _)
    exact .bind (retain_regular _) fun _ => .bind (push_regular trivial) fun _ => resume_regular _

@[simp] theorem stopWorkers_regular (s : SchedulerId) (r : SchedulerRecord) :
    (stopWorkers s r).Regularly p := by
  refine .bind .get fun w => ?_
  dsimp only
  split
  · exact .bind (violate_regular _) fun _ => stopRest_regular s r
  · exact stopRest_regular s r

@[simp] theorem stop_regular (s : SchedulerId) : (stop s).Regularly p := by
  refine .bind (updateShared_regular fun _ _ mem => mem) fun _ =>
    .bind (schedulerRecord_regular s) fun r => .bind .get fun w => .ite ?_ (stopWorkers_regular s r)
  exact .bind (logDebug_regular _) fun _ => .bind (updateShared_regular fun _ _ mem => mem) fun _ =>
    .bind (isStopping_regular s) fun _ => .ite (.pure _) (stopWorkers_regular s r)

@[simp] theorem answer_regular (d : Datum) : (answer d).Regularly p := .pure _

@[simp] theorem fiberNamed_regular (name : String) : (fiberNamed name).Regularly p :=
  .bind .get fun _ => named_regular _ _

@[simp] theorem nameFiber_regular (name : String) (id : FiberId) :
    (nameFiber name id).Regularly p :=
  .bind .get fun _ => .bind (.same fun _ => rfl) fun _ => release_regular _

@[simp] theorem taskOf_regular (label : String) (spec : TaskSpec) :
    (taskOf label spec).Regularly p := by
  cases spec with
  | fiber name =>
    exact .bind (fiberNamed_regular _) fun _ => .bind (retain_regular _) fun _ => .pure _
  | self => exact .bind currentOrMain_regular fun _ => .bind (retain_regular _) fun _ => .pure _
  | callback body own => exact .bind (blockOf_regular _) fun _ => .pure _

@[simp] theorem tasksOf_regular (label : String) (specs : List TaskSpec) :
    (tasksOf label specs).Regularly p := by
  induction specs with
  | nil => exact .pure _
  | cons spec specs ih =>
    refine .bind (taskOf_regular _ _) fun _ => ?_
    refine .bind (.attempt (.bind ih fun _ => .pure _) fun _ => ?_)
      fun e => ?_
    · exact .bind (release_regular _) fun _ => .bind (.throw _) fun _ => .pure _
    · cases e <;> exact .pure _

@[simp] theorem spawnFiber_regular (name : String) (spec : SpawnSpec) :
    (spawnFiber name spec).Regularly p := by
  refine .bind (blockOf_regular _) fun _ => .ite (.bind (makeFiber_regular _ _ _) fun made => ?_)
    (.bind (makeFiber_regular _ _ _) fun made => ?_)
  all_goals
    dsimp only
    split
    · exact .fail _
    · exact .bind (nameFiber_regular _ _) fun _ => .pure _

@[simp] theorem dropFiber_regular (name : String) : (dropFiber name).Regularly p := by
  refine .bind .get fun w => ?_
  split
  · exact .pure _
  · exact .bind (.same fun _ => rfl) fun _ => .bind (release_regular _) fun _ => .pure _

@[simp] theorem performFiber_regular (label : String) (a : FiberAction) :
    (performFiber label a).Regularly p := by
  cases a with
  | spawn name spec => exact spawnFiber_regular _ _
  | resume name =>
    exact .bind (fiberNamed_regular _) fun _ => .bind (retain_regular _) fun _ =>
      .bind (push_regular trivial) fun _ => resume_regular _
  | reset name body =>
    exact .bind (fiberNamed_regular _) fun _ => .bind (blockOf_regular _) fun _ =>
      .bind (resetFiber_regular _ _) fun _ => .bind .get fun _ => .pure _
  | describeTask spec =>
    exact .bind (taskOf_regular _ _) fun _ => .bind (release_regular _) fun _ => .pure _
  | drop name => exact .bind (dropFiber_regular _) fun _ => .pure _
  | keep name =>
    exact .bind currentOrMain_regular fun _ => .bind (retain_regular _) fun _ =>
      .bind (nameFiber_regular _ _) fun _ => .pure _
  | sleep d => exact .bind (push_regular trivial) fun _ => sleep_regular _
  | iterate n body =>
    exact .bind (blockOf_regular _) fun _ => .bind (push_regular trivial) fun _ => .pure _
  | yieldHold => exact yieldTo_regular _
  | yieldReady => exact yieldTo_regular _
  | yieldNow => exact yieldNow_regular
  | state name => exact .bind (fiberNamed_regular _) fun _ => .bind .get fun _ => .pure _
  | inspect name => exact .bind (fiberNamed_regular _) fun _ => .bind .get fun _ => .pure _
  | current => exact .bind currentOrMain_regular fun _ => .bind .get fun _ => .pure _
  | currentId => exact .bind thread_regular fun _ => .pure _
  | inFiber => exact .bind .get fun _ => .pure _
  | total => exact .bind .get fun _ => .pure _
  | describeBuilder stack inScheduler => exact .pure _
  | log value => exact .pure _

@[simp] theorem schedulerNamed_regular (name : String) : (schedulerNamed name).Regularly p :=
  .bind .get fun _ => named_regular _ _

@[simp] theorem nameScheduler_regular (name : String) (id : SchedulerId) :
    (nameScheduler name id).Regularly p :=
  .bind .get fun _ => .bind (.same fun _ => rfl) fun _ => release_regular _

@[simp] theorem holdScheduler_regular (id : SchedulerId) : (holdScheduler id).Regularly p :=
  .bind (retain_regular _) fun _ => push_regular trivial

@[simp] theorem mapM_regular {β : Type} {f : α → Act β} (each : ∀ a, (f a).Regularly p)
    (xs : List α) : (xs.mapM f).Regularly p := by
  induction xs with
  | nil => exact .pure _
  | cons x xs ih =>
    rw [List.mapM_cons]
    exact .bind (each x) fun _ => .bind ih fun _ => .pure _

@[simp] theorem hooksOf_regular (label : String) (spec : Option HooksSpec) :
    (hooksOf label spec).Regularly p := by
  unfold hooksOf
  split
  · exact .bind (mapM_regular blockOf_regular _) fun _ => .pure _
  · exact .pure _

@[simp] theorem configOf_regular (spec : SchedulerConfig.Spec) : (configOf spec).Regularly p :=
  .bind .get fun _ => .pure _

@[simp] theorem newScheduler_regular (label name : String) (spec : SchedulerConfig.Spec)
    (hooks : Option HooksSpec) : (newScheduler label name spec hooks).Regularly p := by
  refine .bind (hooksOf_regular _ _) fun _ => .bind (configOf_regular _) fun _ =>
    .bind (makeScheduler_regular _ _) fun r => ?_
  split
  · exact .fail _
  · exact .bind (nameScheduler_regular _ _) fun _ => .pure _

@[simp] theorem dropScheduler_regular (name : String) : (dropScheduler name).Regularly p := by
  refine .bind .get fun w => ?_
  split
  · exact .pure _
  · exact .bind (.same fun _ => rfl) fun _ => .bind (release_regular _) fun _ => .pure _

@[simp] theorem queuedAnswer_regular (s : SchedulerId) : (queuedAnswer s).Regularly p :=
  .bind (schedulerRecord_regular s) fun _ => .bind .get fun _ => .pure _

/-- Who queues a task for a worker is asked whether the scheduler has that worker. -/
@[simp] theorem scheduleOn_regular (s : SchedulerId) (task : Task Body) (worker : Nat) :
    (scheduleOn s task worker).Regularly p := by
  intro w h
  rw [scheduleOn, Act.on_bind_ok (schedulerRecord_on s w)]
  dsimp only
  split
  · have refuses : (do
        let v := Violation.workerOutOfRange worker ((w.schedulers.get? s).getD default).config.name
          ((w.schedulers.get? s).getD default).config.threads
        logError (announcement v)
        release (taskHandles task)
        let x ← raise (.violation v)
        (fun _ : Unit => enqueue s [⟨task, some worker⟩]) x).Regularly p :=
      .bind (logError_regular _) fun _ => .bind (release_regular _) fun _ => .raise_bind _ _
    exact refuses w h
  · next known =>
    refine enqueue_regular_on h fun e mem k pinned => .inl ?_
    obtain rfl := List.mem_singleton.mp mem
    obtain rfl := Option.some.inj pinned
    exact Nat.lt_of_not_le known

/-- A fiber that moves may name any index that the program names. -/
theorem switchTo_regular (s : SchedulerId) {worker : Option Nat}
    (named : ∀ k, worker = some k → p.SwitchesTo k) : (switchTo s worker).Regularly p := by
  have moves : (do
      let id ← currentOrMain
      retain (.fiber id)
      enqueue s [⟨.fiber id, worker⟩]
      yieldTo .hold).Regularly p := by
    refine .bind currentOrMain_regular fun id => .bind (retain_regular _) fun _ =>
      .bind (fun w h => enqueue_regular_on h fun e mem k pinned => .inr ?_) fun _ =>
        yieldTo_regular _
    obtain rfl := List.mem_singleton.mp mem
    exact ⟨named k pinned, id, rfl⟩
  exact .bind .get fun w => .ite (.pure _)
    (.ite (.bind (violate_regular _) fun _ => moves) moves)

@[simp] theorem switchBack_regular (caller : Option SchedulerId) (outcome : Signal) :
    (switchBack caller outcome).Regularly p := by
  cases caller with
  | none => exact .pure _
  | some s => exact .bind (push_regular trivial) fun _ => switchTo_regular s nofun

@[simp] theorem switcher_regular (target : Option SchedulerId) (block : Nat) (label : String) :
    (switcher target block label).Regularly p := by
  refine .bind currentScheduler_regular fun _ => .bind (retainAll_regular _) fun _ =>
    .bind (push_regular trivial) fun _ => ?_
  cases target with
  | none => exact .pure _
  | some s => exact switchTo_regular s nofun

/-- The action may name an index to switch to if the program does. -/
def SchedulerAction.IsOf (p : Program) : SchedulerAction → Prop
  | .switchTo _ (some k) => p.SwitchesTo k
  | _ => True

theorem performScheduler_regular (label : String) {a : SchedulerAction} (isOf : a.IsOf p) :
    (performScheduler label a).Regularly p := by
  cases a with
  | new name config hooks => exact newScheduler_regular _ _ _ _
  | drop name => exact .bind (dropScheduler_regular _) fun _ => .pure _
  | start name =>
    exact .bind (schedulerNamed_regular _) fun _ => .bind (holdScheduler_regular _) fun _ =>
      start_regular _
  | stop name =>
    exact .bind (schedulerNamed_regular _) fun _ => .bind (push_regular trivial) fun _ =>
      .bind (holdScheduler_regular _) fun _ => stop_regular _
  | schedule name spec =>
    exact .bind (schedulerNamed_regular _) fun _ => .bind (taskOf_regular _ _) fun _ =>
      .bind (enqueue_regular (by simp)) fun _ => queuedAnswer_regular _
  | scheduleOn name spec worker =>
    exact .bind (schedulerNamed_regular _) fun _ => .bind (taskOf_regular _ _) fun _ =>
      .bind (scheduleOn_regular _ _ _) fun _ => queuedAnswer_regular _
  | scheduleAll name specs =>
    exact .bind (schedulerNamed_regular _) fun _ => .bind (tasksOf_regular _ _) fun _ =>
      .bind (enqueue_regular (by simp)) fun _ => queuedAnswer_regular _
  | tickle name =>
    exact .bind (schedulerNamed_regular _) fun _ => .bind (tickle_regular _) fun _ => .pure _
  | tickles name =>
    refine .bind (schedulerNamed_regular _) fun _ => .bind (schedulerRecord_regular _) fun r => ?_
    split <;> exact .pure _
  | inspect name =>
    exact .bind (schedulerNamed_regular _) fun _ => .bind .get fun _ =>
      .bind (schedulerRecord_regular _) fun _ => .pure _
  | display name =>
    exact .bind (schedulerNamed_regular _) fun _ => .bind (schedulerRecord_regular _) fun _ =>
      .pure _
  | current => exact .bind .get fun _ => .pure _
  | workerId => exact .bind thread_regular fun _ => .pure _
  | currentIo =>
    refine .bind .get fun w => ?_
    split <;> exact .pure _
  | setWorker n => exact .bind (updateThread_same_regular fun _ => rfl) fun _ => .pure _
  | setCurrent name =>
    have set (s : Option SchedulerId) : (do
        updateThread fun t => { t with scheduler := s }
        answer (.flag (← get).currentScheduler.isSome)).Regularly p :=
      .bind (updateThread_same_regular fun _ => rfl) fun _ => .bind .get fun _ => .pure _
    cases name with
    | none => exact .bind (.pure _) set
    | some name => exact .bind (.map (schedulerNamed_regular _)) set
  | switchTo name worker =>
    refine .bind (schedulerNamed_regular _) fun s => .bind (push_regular trivial) fun _ =>
      .bind (holdScheduler_regular _) fun _ => switchTo_regular s ?_
    rintro k rfl
    exact isOf
  | switcher name body =>
    have switch (s : Option SchedulerId) : (do
        let block ← blockOf body
        push .answerScheduler
        s.forM holdScheduler
        switcher s block label).Regularly p := by
      refine .bind (blockOf_regular _) fun _ => .bind (push_regular trivial) fun _ =>
        .bind ?_ fun _ => switcher_regular _ _ _
      cases s with
      | none => exact .pure _
      | some s => exact holdScheduler_regular s
    cases name with
    | none => exact .bind (.pure _) switch
    | some name => exact .bind (.map (schedulerNamed_regular _)) switch
  | onThread body name =>
    have starts (block : Nat) (s : Option SchedulerId) : (do
        let steps := (← get).program.block block
        joinThread (← startThread [.steps steps label] s) : Act Signal).Regularly p := by
      refine .get_bind fun w h => ?_
      refine .bind (startThread_regular (fun f mem => ?_) s) fun _ => joinThread_regular _
      rw [List.mem_singleton.mp mem, h.program]
      exact fun step mem => ⟨block, mem⟩
    refine .bind (blockOf_regular _) fun block => ?_
    cases name with
    | none => exact .bind (.pure _) (starts block)
    | some name => exact .bind (.map (schedulerNamed_regular _)) (starts block)
  | setFlag name => exact .bind (.same fun _ => rfl) fun _ => .pure _
  | waitFlag name => exact .bind (push_regular trivial) fun _ => waitFor_regular _

@[simp] theorem reactorNamed_regular (name : String) : (reactorNamed name).Regularly p :=
  .bind .get fun _ => named_regular _ _

@[simp] theorem reactorRecord_regular (r : ReactorId) : (reactorRecord r).Regularly p :=
  .bind .get fun _ => .pure _

@[simp] theorem closeReactor_regular (s : SchedulerId) (r : ReactorId) :
    (closeReactor s r).Regularly p := .bind (push_regular trivial) fun _ => stop_regular _

@[simp] theorem newReactor_regular (name : String) (spec : SchedulerConfig.Spec)
    (reactor : Option ReactorConfig.Spec) : (newReactor name spec reactor).Regularly p := by
  refine .bind (configOf_regular _) fun config => .bind .get fun w =>
    .bind (makeReactor_regular _) fun r => ?_
  split
  · exact .fail _
  · refine .bind (retain_regular _) fun _ => .bind (.attempt (makeScheduler_regular _ _) fun _ =>
      .bind (release_regular _) fun _ => .throw _) fun made => ?_
    split
    · exact .bind (release_regular _) fun _ => .fail _
    · exact .bind (push_regular trivial) fun _ => start_regular _

@[simp] theorem nameReactor_regular (name : String) (s : SchedulerId) (r : ReactorId) :
    (nameReactor name s r).Regularly p := by
  refine .bind (retain_regular _) fun _ => .bind (nameScheduler_regular _ _) fun _ =>
    .bind .get fun w => .bind (.same fun _ => rfl) fun _ => ?_
  split
  · exact .pure _
  · exact .bind (push_regular trivial) fun _ => closeReactor_regular _ _

@[simp] theorem dropReactor_regular (name : String) : (dropReactor name).Regularly p := by
  refine .bind .get fun w => ?_
  split
  · exact .pure _
  · exact .bind (dropScheduler_regular _) fun _ => .bind (.same fun _ => rfl) fun _ =>
      .bind (push_regular trivial) fun _ => closeReactor_regular _ _

@[simp] theorem eventTask_regular (given : Option (Task Body)) : (eventTask given).Regularly p := by
  cases given with
  | some task => exact .pure _
  | none =>
    refine .bind .get fun w => .when (violate_regular _) ?_
    exact .bind currentOrMain_regular fun _ => .when (violate_regular _)
      (.bind (retain_regular _) fun _ => .pure _)

@[simp] theorem violateReleasing_regular (v : Violation) (held : List Handle) :
    (violateReleasing v held : Act α).Regularly p :=
  .bind (logError_regular _) fun _ => .bind (release_regular _) fun _ => .raise _

@[simp] theorem addEvent_regular (s : SchedulerId) (r : ReactorId) (fd : Int) (event : Event)
    (given : Option (Task Body)) : (addEvent s r fd event given).Regularly p := by
  refine .when (violateReleasing_regular _ _) (.bind (reactorRecord_regular r) fun x => ?_)
  split
  · exact .bind (release_regular _) fun _ => .fail _
  · refine .bind (.same fun _ => rfl) fun _ => ?_
    split
    case' h_1 => refine .bind (logDebug_regular _) fun _ => ?_
    all_goals
      refine .bind (eventTask_regular _) fun _ => .bind currentScheduler_regular fun _ =>
        .bind (onTable_regular _ _) fun armed => ?_
      split
      · exact .bind (retain_regular _) fun _ => .pure _
      · exact .bind (logError_regular _) fun _ => .bind (release_regular _) fun _ => .fail _
      · exact violateReleasing_regular _ _

@[simp] theorem disarmed_regular (what : String) {finish : List Handler → Act Unit}
    (finishes : ∀ hs, (finish hs).Regularly p) (d : Reactor.FdTable.Disarmed Handler) :
    (disarmed what finish d).Regularly p := by
  cases d with
  | absent => exact .pure _
  | refused e => exact .bind (logError_regular _) fun _ => .pure _
  | violated v => exact violate_regular v
  | done handlers => exact .bind (finishes handlers) fun _ => .pure _

@[simp] theorem performReactor_regular (label : String) (a : ReactorAction) :
    (performReactor label a).Regularly p := by
  cases a with
  | new name config reactor => exact newReactor_regular _ _ _
  | drop name => exact dropReactor_regular _
  | inspect name =>
    exact .bind (reactorNamed_regular _) fun _ => .bind .get fun _ =>
      .bind (reactorRecord_regular _) fun _ => .pure _
  | pending name =>
    exact .bind (reactorNamed_regular _) fun _ => .bind (reactorRecord_regular _) fun _ => .pure _
  | add name fd event spec =>
    refine .bind (reactorNamed_regular _) fun _ => ?_
    cases spec with
    | none => exact .bind (.pure _) fun _ => addEvent_regular _ _ _ _ _
    | some spec => exact .bind (.map (taskOf_regular _ _)) fun _ => addEvent_regular _ _ _ _ _
  | on name fd event body =>
    exact .bind (reactorNamed_regular _) fun _ => .bind (blockOf_regular _) fun _ =>
      addEvent_regular _ _ _ _ _
  | delete name fd event =>
    exact .bind (reactorNamed_regular _) fun _ => .bind (onTable_regular _ _) fun _ =>
      disarmed_regular _ (fun _ => release_regular _) _
  | cancel name fd event =>
    exact .bind (reactorNamed_regular _) fun _ => .bind (onTable_regular _ _) fun _ =>
      disarmed_regular _ fireAll_regular _
  | cancelAll name fd =>
    exact .bind (reactorNamed_regular _) fun _ => .bind (onTable_regular _ _) fun _ =>
      disarmed_regular _ fireAll_regular _
  | pipe reader writer => exact .bind (kernelDo_regular _) fun _ => .pure _
  | socketPair a b => exact .bind (kernelDo_regular _) fun _ => .pure _
  | file fd => exact .bind (kernelDo_regular _) fun _ => .pure _
  | duplicate fd new => exact .bind (kernelDo_regular _) fun _ => .pure _
  | write fd text => exact .bind (kernel_regular _) fun _ => .pure _
  | read fd n => exact .bind (kernel_regular _) fun _ => .pure _
  | close fd => exact .bind (kernel_regular _) fun _ => .pure _
  | fill fd => exact .bind (kernelDo_regular _) fun _ => .pure _
  | drain fd => exact .bind (kernelDo_regular _) fun _ => .pure _
  | injectWait n => exact .bind (kernelDo_regular _) fun _ => .pure _
  | inject call n => exact .bind (kernelDo_regular _) fun _ => .pure _

@[simp] theorem timersNamed_regular (name : String) : (timersNamed name).Regularly p := by
  refine .bind .get fun w => ?_
  split
  · exact .pure _
  · exact .bind (reactorNamed_regular _) fun _ => .bind (reactorRecord_regular _) fun _ => .pure _

@[simp] theorem timerNamed_regular (name : String) : (timerNamed name).Regularly p :=
  .bind .get fun _ => named_regular _ _

@[simp] theorem newTimers_regular (name : String) : (newTimers name).Regularly p := by
  refine .bind freshId_regular fun _ => .bind .get fun _ => .bind (.same fun _ => rfl) fun _ => ?_
  split
  · exact .bind (endTimers_regular _) fun _ => release_regular _
  · exact .pure _

@[simp] theorem dropTimers_regular (name : String) : (dropTimers name).Regularly p := by
  refine .bind .get fun w => ?_
  split
  · exact .pure _
  · exact .bind (.same fun _ => rfl) fun _ => .bind (endTimers_regular _) fun _ =>
      .bind (release_regular _) fun _ => .pure _

@[simp] theorem armTimer_regular (set : Nat) (name : String) (delay : Duration)
    (callback : TimerBody) (recurring : Bool) :
    (armTimer set name delay callback recurring).Regularly p :=
  .bind (addTimer_regular _ _ _ _) fun _ => .bind (.same fun _ => rfl) fun _ => .pure _

@[simp] theorem cancelTimer_regular (set id : Nat) : (cancelTimer set id).Regularly p := by
  refine .bind (onTimers_regular _ _) fun r => ?_
  split
  · exact .bind (release_regular _) fun _ => .pure _
  · exact .pure _

@[simp] theorem rearmed_regular (set : Nat) (r : Timers.Rearmed) : (rearmed set r).Regularly p := by
  cases r with
  | absent => exact .pure _
  | unchanged => exact .pure _
  | overflow => exact .raise _
  | armed wake => exact .when (notifyFront_regular _) (.pure _)

@[simp] theorem newObject_regular (name : String) : (newObject name).Regularly p :=
  .bind freshId_regular fun _ => .same fun _ => rfl

@[simp] theorem dropObject_regular (name : String) : (dropObject name).Regularly p := by
  refine .bind .get fun w => ?_
  split
  · exact .pure _
  · exact .bind (.same fun _ => rfl) fun _ => .pure _

@[simp] theorem readClock_regular : readClock.Regularly p :=
  .bind .get fun _ => .ite (.raise _) (.pure _)

@[simp] theorem performTimer_regular (label : String) (a : TimerAction) :
    (performTimer label a).Regularly p := by
  cases a with
  | new name => exact .bind (newTimers_regular _) fun _ => .pure _
  | add timers name delay body recurring =>
    exact .bind (timersNamed_regular _) fun _ => .bind (blockOf_regular _) fun _ =>
      armTimer_regular _ _ _ _ _
  | addGuarded timers name delay body recurring object =>
    exact .bind (timersNamed_regular _) fun _ => .bind (blockOf_regular _) fun _ =>
      .bind .get fun _ => .bind (named_regular _ _) fun _ => armTimer_regular _ _ _ _ _
  | newObject name => exact .bind (newObject_regular _) fun _ => .pure _
  | dropObject name => exact .bind (dropObject_regular _) fun _ => .pure _
  | cancel name =>
    exact .bind (timerNamed_regular _) fun _ => .bind (cancelTimer_regular _ _) fun _ => .pure _
  | refresh name =>
    exact .bind (timerNamed_regular _) fun _ => .bind .get fun _ => .bind (onTimers_regular _ _)
      fun _ => .bind (rearmed_regular _ _) fun _ => .pure _
  | reset name interval fromNow =>
    exact .bind (timerNamed_regular _) fun _ => .bind .get fun _ => .bind (onTimers_regular _ _)
      fun _ => .bind (rearmed_regular _ _) fun _ => .pure _
  | armed name => exact .bind (timerNamed_regular _) fun _ => .bind .get fun _ => .pure _
  | next timers =>
    exact .bind (timersNamed_regular _) fun _ => .bind .get fun _ =>
      .bind (onTimers_regular _ _) fun _ => .pure _
  | inspect timers => exact .bind (timersNamed_regular _) fun _ => .bind .get fun _ => .pure _
  | expire timers =>
    exact .bind (timersNamed_regular _) fun _ => .bind (expire_regular _) fun _ =>
      .bind (push_regular trivial) fun _ => .pure _
  | expireHold timers body =>
    exact .bind (timersNamed_regular _) fun _ => .bind (blockOf_regular _) fun _ =>
      .bind (expire_regular _) fun _ => .bind (push_regular trivial) fun _ => startBlock_regular _ _
  | wakes timers =>
    refine .bind .get fun w => .bind (named_regular _ _) fun set => .bind .get fun w => ?_
    split <;> exact .pure _
  | drop timers => exact .bind (dropTimers_regular _) fun _ => .pure _
  | advance d => exact .bind (.same fun _ => rfl) fun _ => readClock_regular
  | now => exact readClock_regular

@[simp] theorem osAnswer_regular (r : Except OsError Unit) : (osAnswer r).Regularly p := by
  cases r with
  | ok => exact .pure _
  | error e => exact .fail _

@[simp] theorem epollNamed_regular (name : String) : (epollNamed name).Regularly p :=
  .bind .get fun _ => named_regular _ _

@[simp] theorem counterNamed_regular (name : String) : (counterNamed name).Regularly p :=
  .bind .get fun _ => named_regular _ _

@[simp] theorem semaphoreNamed_regular (name : String) : (semaphoreNamed name).Regularly p :=
  .bind .get fun _ => named_regular _ _

@[simp] theorem placeNamed_regular (name : String) : (placeNamed name).Regularly p :=
  .bind .get fun _ => named_regular _ _

@[simp] theorem putSemaphore_regular (id : Nat) (s : Semaphore) : (putSemaphore id s).Regularly p :=
  .same fun _ => rfl

@[simp] theorem putPlace_regular (id : Nat) (x : Parking) : (putPlace id x).Regularly p :=
  .same fun _ => rfl

@[simp] theorem takePermit_regular (id : Nat) : (takePermit id).Regularly p := by
  refine .bind .get fun w => ?_
  split
  · exact .bind (putSemaphore_regular _ _) fun _ => .pure _
  · exact .pure _

@[simp] theorem givePermits_regular (id n : Nat) : (givePermits id n).Regularly p := by
  induction n with
  | zero => exact .pure _
  | succ n ih =>
    refine .bind .get fun w => ?_
    split
    · exact .bind (putSemaphore_regular _ _) fun _ => ih
    · exact .raise _

@[simp] theorem wakePlace_regular (id n : Nat) : (wakePlace id n).Regularly p := by
  induction n with
  | zero => exact .pure _
  | succ n ih => exact .bind .get fun _ => .bind (putPlace_regular _ _) fun _ => ih

@[simp] theorem probeStack_regular (size : Nat) : (probeStack size).Regularly p := by
  refine .bind (mapStack_regular _) fun r => ?_
  split
  · exact .fail _
  · exact .bind unmapStack_regular fun _ => .pure _

@[simp] theorem performPrimitive_regular (a : PrimitiveAction) :
    (performPrimitive a).Regularly p := by
  cases a with
  | epollNew name maxEvents =>
    refine .bind (kernel_regular _) fun r => ?_
    split
    · exact .fail _
    · exact .bind .get fun _ => .bind (.same fun _ => rfl) fun _ => .pure _
  | epollRegister name fd mask =>
    exact .bind (epollNamed_regular _) fun _ => .bind (kernel_regular _) fun _ => osAnswer_regular _
  | epollModify name fd mask =>
    exact .bind (epollNamed_regular _) fun _ => .bind (kernel_regular _) fun _ => osAnswer_regular _
  | epollDeregister name fd =>
    exact .bind (epollNamed_regular _) fun _ => .bind (kernel_regular _) fun _ => osAnswer_regular _
  | epollWake name =>
    exact .bind (epollNamed_regular _) fun _ => .bind (kernel_regular _) fun _ => osAnswer_regular _
  | epollWait name timeout =>
    exact .bind (epollNamed_regular _) fun _ => .bind (push_regular trivial) fun _ =>
      poll_regular _ _
  | counterNew name =>
    refine .bind (kernel_regular _) fun r => ?_
    split
    · exact .fail _
    · exact .bind (.same fun _ => rfl) fun _ => .pure _
  | counterSignal name =>
    exact .bind (counterNamed_regular _) fun _ => .bind (kernel_regular _) fun _ =>
      osAnswer_regular _
  | counterDrain name =>
    exact .bind (counterNamed_regular _) fun _ => .bind (kernel_regular _) fun _ => .pure _
  | counterAdd name n =>
    exact .bind (counterNamed_regular _) fun _ => .bind (kernel_regular _) fun _ => .pure _
  | semaphoreNew name count =>
    exact .bind freshId_regular fun _ => .bind (putSemaphore_regular _ _) fun _ =>
      .bind (.same fun _ => rfl) fun _ => .pure _
  | semaphoreTry name =>
    exact .bind (semaphoreNamed_regular _) fun _ => .bind (takePermit_regular _) fun _ => .pure _
  | semaphoreWait name =>
    refine .bind (semaphoreNamed_regular _) fun _ => .bind (takePermit_regular _) fun _ =>
      .ite (.pure _) (.bind .get fun _ => .ite ?_ (.pure _))
    exact .bind (push_regular trivial) fun _ => waitFor_regular _
  | semaphoreTimeout name d =>
    exact .bind (semaphoreNamed_regular _) fun _ => .bind (takePermit_regular _) fun _ =>
      .ite (.pure _) (.bind .get fun _ =>
        .ite (.bind (deadline_regular _) fun _ => waitFor_regular _) (.pure _))
  | semaphoreNotify name times =>
    exact .bind (semaphoreNamed_regular _) fun _ => .bind (givePermits_regular _ _) fun _ => .pure _
  | semaphoreAvailable name =>
    exact .bind (semaphoreNamed_regular _) fun _ => .bind .get fun _ => .pure _
  | parkingNew name =>
    exact .bind freshId_regular fun _ => .bind (putPlace_regular _ _) fun _ =>
      .bind (.same fun _ => rfl) fun _ => .pure _
  | park name d =>
    exact .bind (placeNamed_regular _) fun _ => .bind .get fun _ => .bind (deadline_regular _)
      fun _ => parkAt_regular (putPlace_regular _) _
  | wake name times =>
    exact .bind (placeNamed_regular _) fun _ => .bind (wakePlace_regular _ _) fun _ => .pure _
  | parkCount name =>
    exact .bind (placeNamed_regular _) fun _ => .bind .get fun _ => .bind (putPlace_regular _ _)
      fun _ => .pure _
  | stack size => exact .bind (probeStack_regular _) fun _ => .pure _
  | describeStack size => exact .bind (probeStack_regular _) fun _ => .pure _

@[simp] theorem performLog_regular (a : LogAction) : (performLog a).Regularly p := by
  cases a with
  | setLevel l => exact .bind (.same fun _ => rfl) fun _ => .pure _
  | level => exact .bind initLog_regular fun _ => .bind .get fun _ => .pure _
  | enabled l => exact .when initLog_regular (.bind .get fun _ => .pure _)
  | setFlush b =>
    exact .bind (.same fun _ => rfl) fun _ => .bind initLog_regular fun _ => .bind .get fun _ =>
      .pure _
  | setSink s => exact .bind .get fun _ => .bind (.same fun _ => rfl) fun _ => .pure _
  | resetSink => exact .bind .get fun _ => .bind (.same fun _ => rfl) fun _ => .pure _
  | write l text => exact .bind (log_regular _ _) fun _ => .pure _
  | raw text => exact .bind (sendPiece_regular _) fun _ => .pure _
  | line text => exact .bind (sendLine_regular _ _) fun _ => .pure _
  | contract holds text => exact .when (violate_regular _) (.pure _)
  | printConfig spec =>
    exact .bind (configOf_regular _) fun _ => .bind (.forM fun _ => sendLine_regular _ _) fun _ =>
      .pure _

@[simp] theorem performDemo_regular (a : DemoAction) : (performDemo a).Regularly p := by
  cases a with
  | print line =>
    exact .bind (.bind .get fun _ => .pure _) fun _ => .bind (.same fun _ => rfl) fun _ => .pure _
  | write l line =>
    exact .bind (.bind .get fun _ => .pure _) fun _ => .bind (log_regular _ _) fun _ => .pure _
  | tally name => exact .bind (.same fun _ => rfl) fun _ => .pure _
  | mark moment => exact .bind (.same fun _ => rfl) fun _ => .pure _
  | initLog => exact .bind initLog_regular fun _ => .pure _

/-- The action may be performed if it names no index to switch to, or one that the program names. -/
def Action.IsOf (p : Program) : Action → Prop
  | .scheduler a => a.IsOf p
  | _ => True

theorem perform_regular (label : String) {a : Action} (isOf : a.IsOf p) :
    (perform label a).Regularly p := by
  cases a with
  | fiber a => exact performFiber_regular _ _
  | scheduler a => exact performScheduler_regular _ isOf
  | reactor a => exact performReactor_regular _ _
  | timer a => exact performTimer_regular _ _
  | primitive a => exact performPrimitive_regular _
  | log a => exact performLog_regular _
  | demo a => exact performDemo_regular _

theorem Action.isOf_of_has {step : Step} {a : Action} (has : p.Has step)
    (performs : step.action? = some a) : a.IsOf p := by
  cases a with
  | scheduler a =>
    cases a with
    | switchTo name worker =>
      cases worker with
      | none => trivial
      | some k => exact ⟨step, name, has, performs⟩
    | _ => trivial
  | _ => trivial

theorem startStep_regular (label : String) {step : Step} (has : p.Has step) :
    (startStep label step).Regularly p := by
  cases step with
  | perform verb a =>
    exact .bind (push_regular trivial) fun _ => perform_regular _ (Action.isOf_of_has has rfl)
  | uncaught verb a =>
    exact .bind (push_regular trivial) fun _ => perform_regular _ (Action.isOf_of_has has rfl)
  | require a =>
    exact .bind (push_regular trivial) fun _ => perform_regular _ (Action.isOf_of_has has rfl)
  | panic x => exact .raise _

theorem startSteps_regular (label : String) {steps : List Step} (has : ∀ step ∈ steps, p.Has step) :
    (startSteps label steps).Regularly p := by
  cases steps with
  | nil => exact .pure _
  | cons step rest =>
    have first := startStep_regular label (has step List.mem_cons_self)
    cases rest with
    | nil => exact first
    | cons next rest =>
      refine .bind (push_regular ?_) fun _ => first
      exact fun step mem => has step (List.mem_cons_of_mem _ mem)

@[simp] theorem startFiber_regular (id : FiberId) : (startFiber id).Regularly p := by
  refine .bind .get fun w => ?_
  dsimp only
  refine .bind (.same fun _ => rfl) fun _ => ?_
  split
  · exact finish_regular _ _
  · exact .bind (push_regular trivial) fun _ => startBody_regular _

@[simp] theorem reenterEnded_regular : reenterEnded.Regularly p :=
  .bind (logError_regular _) fun _ => abort_regular

theorem proceed_regular (s : Signal) {f : Frame} (isOf : f.IsOf p) : (proceed s f).Regularly p := by
  cases f with
  | steps rest label => exact startSteps_regular label isOf
  | report verb label => exact .bind (report_regular _ _ _) fun _ => .pure _
  | reportSuccess verb label => exact .bind (report_regular _ _ _) fun _ => .pure _
  | require => exact .bind (.same fun _ => rfl) fun _ => .pure _
  | iterate n block label =>
    cases n with
    | zero => exact .pure _
    | succ n => exact .bind (push_regular trivial) fun _ => startBlock_regular _ _
  | release handles => exact .bind (release_regular _) fun _ => .pure _
  | answer d => exact .pure _
  | answerClock => exact .bind clockAnswer_regular fun _ => .pure _
  | answerWorker => exact .bind thread_regular fun _ => .pure _
  | answerScheduler => exact .bind .get fun _ => .pure _
  | answerPolled =>
    rcases s with _ | _ | (_ | _) | _ | _
    all_goals first | exact .pure _ | exact .fail _
  | switched caller block label =>
    exact .bind (push_regular trivial) fun _ => startBlock_regular _ _
  | switchBack caller => exact switchBack_regular _ _
  | switchedBack caller outcome => exact .bind (release_regular _) fun _ => .pure _
  | callbacks rest count =>
    cases rest with
    | nil => exact .pure _
    | cons b rest =>
      exact .bind (push_regular trivial) fun _ => .bind (push_regular trivial) fun _ =>
        startTimer_regular _
  | fiberStart id => exact startFiber_regular _
  | fiberBody id => exact finish_regular _ _
  | fiberEnd => exact reenterEnded_regular
  | workerStart scheduler worker => exact enterWorker_regular _ _
  | workerEnd scheduler => exact leaveWorker_regular _
  | loop l => exact turn_regular _
  | loopFiber l id => exact turnedFiber_regular _ _ _
  | loopCallback l id => exact turnedCallback_regular _ _ _
  | loopIdle l => exact turnedIdle_regular _
  | idleParking scheduler => exact idleParking_regular _
  | idleParked scheduler => exact idleParked_regular _
  | idleScripts scheduler rest label => exact idleScripts_regular _ _ _
  | idleScriptDone scheduler rest label => exact idleScriptDone_regular _ _ _
  | idleRounds scheduler rounds label => exact idleRounds_regular _ _ _
  | idleReactor scheduler reactor => exact idleReactor_regular _ _
  | idlePoll reactor timeout =>
    cases s with
    | polled r => exact idlePoll_regular _ _ _
    | _ => exact .pure _
  | idlePolled scheduler reactor =>
    rcases s with _ | _ | (_ | _) | _ | _
    all_goals exact idlePolled_regular _ _ _
  | stopJoin scheduler => exact stopJoin_regular _
  | stopJoining scheduler threads => exact stopJoining_regular _ _
  | startReady scheduler => exact startReady_regular _
  | ioStarted name scheduler reactor => exact nameReactor_regular _ _ _
  | threadJoined thread =>
    refine .bind .get fun w => ?_
    split <;> exact .pure _

theorem unwindPanic_regular (x : Panic) (f : Frame) : (unwindPanic x f).Regularly p := by
  unfold unwindPanic
  split
  · exact .bind (report_regular _ _ _) fun _ => .pure _
  · exact finishPanicked_regular _ _
  · exact reenterEnded_regular
  · exact switchBack_regular _ _
  · exact .when abort_regular (.bind (release_regular _) fun _ => .pure _)
  · exact .bind (release_regular _) fun _ => .pure _

theorem unwindFailure_regular (x : Failure) (f : Frame) : (unwindFailure x f).Regularly p := by
  unfold unwindFailure
  split
  · exact .bind (report_regular _ _ _) fun _ => .pure _
  · exact .bind (report_regular _ _ _) fun _ => .pure _
  · exact .pure _
  · exact .bind (release_regular _) fun _ => .pure _

theorem proceedWith_regular {f : Frame} (isOf : f.IsOf p) (s : Signal) :
    (proceedWith f s).Regularly p := by
  unfold proceedWith
  split
  · exact unwindPanic_regular _ _
  · exact unwindFailure_regular _ _
  · exact proceed_regular _ isOf

theorem permitted_regular (taken : Bool) (until? : Option Instant) :
    (permitted taken until?).Regularly p :=
  .ite (.pure _) (.bind .get fun _ => .ite (.pure _) (.pure _))

theorem tryWait_regular (x : Wait) : (tryWait x).Regularly p := by
  cases x with
  | flag name => exact .bind .get fun _ => .pure _
  | semaphore id t => exact .bind (takePermit_regular _) fun _ => permitted_regular _ _
  | place id t =>
    refine .bind .get fun w => ?_
    split
    · exact .bind (putPlace_regular _ _) fun _ => permitted_regular _ _
    · exact permitted_regular _ _
  | hooksPlace s t =>
    refine .bind (schedulerRecord_regular s) fun r => ?_
    split
    · split
      · exact .bind (updateScheduler_regular (fun _ => rfl) fun _ _ mem => mem) fun _ =>
          permitted_regular _ _
      · exact permitted_regular _ _
    · exact permitted_regular _ _
  | thread id => exact .bind .get fun _ => .pure _
  | workersUp threads => exact .bind .get fun _ => .pure _
  | epoll id millis t =>
    refine .bind (pollNow_regular _ _) fun found => ?_
    split
    · exact .pure _
    · exact .bind .get fun _ => .ite (.bind (kernelDo_regular _) fun _ => .pure _) (.pure _)
  | moment t => exact .bind .get fun _ => .pure _

namespace World.Regular

theorem perform (h : w.Regular p) {act : Act Signal} (regular : act.Regularly p) :
    (w.perform act).2.Regular p := by
  rw [perform_snd]
  exact regular w h

theorem updateThread (h : w.Regular p) {f : Thread → Thread}
    (frames : ∀ t, (∀ x ∈ t.frames, x.IsOf p) → ∀ x ∈ (f t).frames, x.IsOf p) :
    (w.updateThread f).Regular p := h.modify_thread w.running frames

theorem endThread (h : w.Regular p) (t : Thread) : (w.endThread t).Regular p := by
  have ended (e : Option Panic) :
      (w.updateThread fun t => { t with ended := some e }).Regular p :=
    h.updateThread fun _ frames => frames
  have left (e : Option Panic) (held : List Handle) :
      (World.updateThread ((w.updateThread fun t => { t with ended := some e }).perform do
        release held
        return .done .null).2 fun t => { t with current := none, main := none }).Regular p :=
    ((ended e).perform (.bind (release_regular _) fun _ => .pure _)).updateThread fun _ frames =>
      frames
  unfold World.endThread
  dsimp only
  split
  all_goals
    split
    · exact ended _
    · exact left _ _

/-- A step of a thread. -/
theorem step (h : w.Regular p) : w.step.2.Regular p := by
  unfold World.step
  dsimp only
  split
  · exact h
  · split
    · next x waits =>
      have tried := tryWait_regular x w h
      rcases done : (tryWait x).on w with ⟨r, v⟩
      rw [done] at tried
      rw [show (tryWait x).run.run w = (r, v) from done]
      rcases r with _ | _ | s
      · exact tried
      · exact tried
      · exact tried.updateThread fun _ frames => frames
    · split
      · exact h.endThread _
      · next f rest frames =>
        have all := h.thread_frames
        rw [frames] at all
        obtain ⟨isOf, behind⟩ := List.forall_mem_cons.mp all
        refine World.Regular.updateThread ?_ fun _ frames => frames
        exact (h.updateThread fun _ _ => behind).perform (proceedWith_regular isOf _)

theorem turns (ids : List ThreadId) (h : w.Regular p) : (w.turns ids).2.Regular p := by
  induction ids generalizing w with
  | nil => exact h
  | cons id ids ih =>
    unfold World.turns
    split
    · exact h
    · have moved : Regular p { w with running := id } := h.of_same rfl rfl rfl rfl
      exact ih moved.step

theorem round (h : w.Regular p) {w' : World} (next : w.round = some w') : w'.Regular p := by
  have turned := h.turns w.threadIds
  unfold World.round at next
  dsimp only at next
  split at next
  · cases next
    exact turned
  · cases next
  · cases next
    exact turned.of_same rfl rfl rfl rfl
  · obtain ⟨t, -, rfl⟩ := Option.map_eq_some_iff.mp next
    exact turned.of_same rfl rfl rfl rfl

/-- Any number of rounds. -/
theorem runUpTo (n : Nat) (h : w.Regular p) : (w.runUpTo n).Regular p := by
  induction n generalizing w with
  | zero => exact h
  | succ n ih =>
    unfold World.runUpTo
    split
    · exact h
    · split
      · next next => exact ih (h.round next)
      · exact h

end World.Regular

theorem start_isRegular (p : Program) (timing : Timing) (environment : Environment)
    (settings : Log.Settings) (contextual : Bool) (sink : Option SinkSpec) (label : String) :
    (World.start p timing environment settings contextual sink label).Regular p := by
  refine ⟨rfl, ?_, nofun, nofun, nofun⟩
  intro i t found f mem
  change (Table.empty.put mainThread (Thread.fresh [.steps (p.block 0) label] none)).get? i = some t
    at found
  rw [Table.get?_put] at found
  split at found
  · cases found
    rw [List.mem_singleton.mp mem]
    exact fun step mem => ⟨0, mem⟩
  · cases found

end Fibers.Script
