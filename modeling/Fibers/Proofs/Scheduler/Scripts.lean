import Fibers.Proofs.Scheduler.Reference
import Fibers.Proofs.Scheduler.View

/-!
The scripts that bodies are, run from views. A body is given by its `Code`; each of its steps
performs one action and reports it.
-/

namespace Fibers.Script

variable {c : Site} {u v v' : View} {α β : Type} {a : α} {b : β} {d : Datum}

/-- The frames that steps leave to be run. -/
def stepFrames (label : String) : List Step → List Frame
  | [] => []
  | steps => [.steps steps label]

theorem startSteps_does {label : String} {step : Step} {rest : List Step} {s : Signal}
    (h : Does c { v with frames := stepFrames label rest ++ v.frames } (startStep label step) s
      v') :
    Does c v (startSteps label (step :: rest)) s v' := by
  cases rest with
  | nil => exact h
  | cons next rest => exact (push_does _).bind h

theorem steps_nil_runs {label : String} {base : List Frame}
    (frames : v.frames = .steps [] label :: base) (signal : v.signal = .done d) :
    Runs c v { v with frames := base, signal := .done .null } := by
  refine .of_does frames ?_
  rw [signal]
  exact .pure _

/-- An action of a script is performed and reported. -/
theorem perform_runs (v' : View) {label verb : String} {action : Action} {rest : List Step}
    {base : List Frame} {res : Datum}
    (frames : v.frames = .steps (.perform verb action :: rest) label :: base)
    (signal : v.signal = .done d)
    (h : Does c { v with frames := .report verb label :: (stepFrames label rest ++ base) }
      (perform label action) (.done res)
      { v' with
        frames := .report verb label :: (stepFrames label rest ++ base)
        signal := v.signal }) :
    Runs c v
      { v' with
        frames := stepFrames label rest ++ base
        signal := .done .null
        reports := v'.reports ++ [(verb, res)] } := by
  let u : View :=
    { v' with frames := .report verb label :: (stepFrames label rest ++ base), signal := .done res }
  have performed : Runs c v u := by
    refine .of_does frames ?_
    rw [signal] at h ⊢
    exact startSteps_does ((push_does _).bind h)
  exact performed.trans (.of_does rfl ((report_does verb label res).bind (.pure _)))

/-- How a script names a task. -/
def Origin.spec : Origin → TaskSpec
  | .callback block own => .callback (.block block) own
  | .fiber name .. => .fiber name

/-- The task that is queued; a body without a label of its own gets that of the script. -/
def Origin.task (label : String) : Origin → Task Body
  | .callback block own => .callback (.script block (own.getD label))
  | .fiber _ id .. => .fiber id

/-- The handle that the queue takes over. -/
def Origin.retain : Origin → FiberTable Body → FiberTable Body
  | .callback .., t => t
  | .fiber _ id .., t => t.retain id

/-- The name of a fiber stands for it. -/
def Origin.Named (names : Names) : Origin → Prop
  | .callback .. => True
  | .fiber name id .. => names.fibers.get? name = some id

theorem taskOf_does (label : String) {origin : Origin} (named : origin.Named c.names) :
    Does c v (taskOf label origin.spec) (origin.task label)
      { v with fibers := origin.retain v.fibers } := by
  cases origin with
  | callback block own => exact .pure _
  | fiber name id block lab =>
    have found : c.names.fibers.get? name = some id := named
    have fiber : Does c v (fiberNamed name) id v := by
      refine Does.get fun w shows => ?_
      rw [Script.named, shows.names, found]
      exact .pure id
    exact fiber.bind ((retain_fiber_does id).bind (.pure _))

/-- An effect whose failures are caught, where it does not fail. -/
theorem Act.on_tryCatch_ok {x : Act α} {h : Stop → Act α} {w w' : World} {a : α}
    (ok : x.on w = (.ok a, w')) : (tryCatch x h).on w = (.ok a, w') := by
  have ok' : x w = (.ok a, w') := ok
  simp only [Act.on, tryCatch, tryCatchThe, MonadExceptOf.tryCatch, ExceptT.tryCatch, ExceptT.run,
    ExceptT.mk, StateT.run, StateT.bind, bind, ok']
  rfl

theorem Does.tryCatch {x : Act α} {f : Stop → Act α} (h : Does c v x a v') :
    Does c v (tryCatch x f) a v' := by
  intro w shows
  obtain ⟨w', did, shows'⟩ := h w shows
  exact ⟨w', Act.on_tryCatch_ok did, shows'⟩

/-- Queueing some tasks takes a handle of each. -/
def retainTasks (tasks : List (Origin × Code)) (t : FiberTable Body) : FiberTable Body :=
  tasks.foldl (fun t task => task.1.retain t) t

theorem tasksOf_does (label : String) {tasks : List (Origin × Code)}
    (named : ∀ t ∈ tasks, t.1.Named c.names) :
    Does c v (tasksOf label (tasks.map fun t => t.1.spec)) (tasks.map fun t => t.1.task label)
      { v with fibers := retainTasks tasks v.fibers } := by
  induction tasks generalizing v with
  | nil => exact .pure []
  | cons t tasks ih =>
    have rest := ih (v := { v with fibers := t.1.retain v.fibers }) fun u mem =>
      named u (List.mem_cons_of_mem t mem)
    refine (taskOf_does label (named t List.mem_cons_self)).bind
      (Does.bind (a := Except.error ((t :: tasks).map fun t => t.1.task label)) (.tryCatch ?_)
        (.pure _))
    exact rest.bind (.pure _)

/-- What a script is told of the length of a queue. -/
def Site.count (c : Site) (n : Nat) : Datum := if c.timing == .flowing then .null else .nat n

theorem queuedAnswer_does :
    Does c v (queuedAnswer c.scheduler) (.done (c.count v.shared.queue.length)) v := by
  refine Does.record fun x is => Does.get fun w shows => ?_
  rw [is.shared, World.isConcurrent, shows.timing]
  exact .pure _

theorem scheduleOn_does (one : c.config.threads = 1) (task : Task Body) :
    Does c v (scheduleOn c.scheduler task 0) ()
      { v with shared := { v.shared with queue := v.shared.queue ++ [⟨task, some 0⟩] } } := by
  refine Does.record fun x is => ?_
  rw [is.config]
  dsimp only
  rw [one, if_neg (by decide)]
  exact enqueue_does _

theorem schedulerNamed_does {name : String}
    (named : c.names.schedulers.get? name = some c.scheduler) :
    Does c v (schedulerNamed name) c.scheduler v := by
  refine Does.get fun w shows => ?_
  rw [Script.named, shows.names, named]
  exact .pure _

/-- The action that queues a task, for worker 0 or for any. -/
def Origin.queueing (scheduler : String) (pinned : Bool) (origin : Origin) : SchedulerAction :=
  if pinned then .scheduleOn scheduler origin.spec 0 else .schedule scheduler origin.spec

/-- The steps that a body is written as. -/
def Code.steps : Code → List Step
  | .ends none => []
  | .ends (some p) => [.panic p]
  | .notes verb d next => .perform verb (.fiber (.log d)) :: next.steps
  | .yields verb next => .perform verb (.fiber .yieldReady) :: next.steps
  | .queues verb scheduler pinned origin _ next =>
    .perform verb (.scheduler (origin.queueing scheduler pinned)) :: next.steps
  | .queuesAll verb scheduler tasks next =>
    .perform verb (.scheduler (.scheduleAll scheduler (tasks.map fun t => t.1.spec))) :: next.steps

/-- The entry of a task in the queue. -/
def Origin.entry (label : String) (pinned : Bool) (origin : Origin) : QueueEntry Body :=
  ⟨origin.task label, if pinned then some 0 else none⟩

/-- The view after entries were queued. -/
def View.queued (v : View) (fibers : FiberTable Body) (entries : List (QueueEntry Body)) : View :=
  { v with fibers := fibers, shared := { v.shared with queue := v.shared.queue ++ entries } }

theorem queueing_does {scheduler : String}
    (named : c.names.schedulers.get? scheduler = some c.scheduler) (one : c.config.threads = 1)
    (pinned : Bool) {origin : Origin} (known : origin.Named c.names) (label : String) :
    Does c v (perform label (.scheduler (origin.queueing scheduler pinned)))
      (.done (c.count (v.shared.queue.length + 1)))
      (v.queued (origin.retain v.fibers) [origin.entry label pinned]) := by
  have length : v.shared.queue.length + 1 =
      (v.shared.queue ++ [origin.entry label pinned]).length := by
    rw [List.length_append]
    rfl
  rw [length]
  cases pinned with
  | true =>
    exact (schedulerNamed_does named).bind ((taskOf_does label known).bind
      ((scheduleOn_does one _).bind queuedAnswer_does))
  | false =>
    exact (schedulerNamed_does named).bind ((taskOf_does label known).bind
      ((enqueue_does _).bind queuedAnswer_does))

theorem queueingAll_does {scheduler : String}
    (named : c.names.schedulers.get? scheduler = some c.scheduler) {tasks : List (Origin × Code)}
    (known : ∀ t ∈ tasks, t.1.Named c.names) (label : String) :
    Does c v (perform label (.scheduler (.scheduleAll scheduler (tasks.map fun t => t.1.spec))))
      (.done (c.count (v.shared.queue.length + tasks.length)))
      (v.queued (retainTasks tasks v.fibers) (tasks.map fun t => t.1.entry label false)) := by
  have length : v.shared.queue.length + tasks.length =
      (v.shared.queue ++ tasks.map fun t => t.1.entry label false).length := by
    rw [List.length_append, List.length_map]
  have entries : tasks.map (fun t => t.1.entry label false) =
      (tasks.map fun t => t.1.task label).map fun t => ⟨t, none⟩ := by
    rw [List.map_map]
    rfl
  rw [length, entries]
  exact (schedulerNamed_does named).bind ((tasksOf_does label known).bind
    ((enqueue_does _).bind queuedAnswer_does))

end Fibers.Script
