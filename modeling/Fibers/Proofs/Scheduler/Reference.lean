import Mathlib.Algebra.GroupWithZero.Nat
import Fibers.Script.Machine

/-!
The machine that a run loop with one worker is: a queue of jobs, of which the first one is taken and
run to its next yield or its end. What it queues goes to the end of the queue, and after that its
rest, if it yielded. The machine knows nothing of fibers, stacks and pools.

A job's `Code` is what its body does, with the code of all the tasks that it queues, so that every
task is queued once.
-/

namespace Fibers.Script

/-- Where a task comes from: a body for a fiber of the worker's own, or a fiber that was made for
it. -/
inductive Origin where
  | callback (block : Nat) (own : Option String)
  | fiber (name : String) (id : FiberId) (block : Nat) (label : String)

inductive Code where
  /-- The body returns, or it panics. -/
  | ends (p : Option Panic)
  | notes (verb : String) (d : Datum) (next : Code)
  | yields (verb : String) (next : Code)
  /-- Queues a task, for worker 0 or for any. -/
  | queues (verb scheduler : String) (pinned : Bool) (origin : Origin) (code next : Code)
  /-- Queues tasks at once. -/
  | queuesAll (verb scheduler : String) (tasks : List (Origin × Code)) (next : Code)

/-- A job of the machine. -/
structure Job where
  /-- The yield that it comes back from, if it has begun. -/
  back : Option String
  code : Code

/-- A task that has not begun. -/
def Job.of (task : Origin × Code) : Job := ⟨none, task.2⟩

/-- What a job does when it is run. -/
structure Segment where
  reports : List (String × Datum)
  queued : List Job
  /-- Its rest, if it yielded. -/
  left : List Job

/-- What a body does up to its next yield or its end, when `waiting` jobs are in the queue. The
length of the queue is reported as `count` says. -/
def Code.segment (count : Nat → Datum) : Code → Nat → Segment
  | .ends _, _ => ⟨[], [], []⟩
  | .notes verb d next, waiting =>
    let s := next.segment count waiting
    { s with reports := (verb, d) :: s.reports }
  | .yields verb next, _ => ⟨[], [], [⟨some verb, next⟩]⟩
  | .queues verb _ _ _ code next, waiting =>
    let s := next.segment count (waiting + 1)
    { s with
      reports := (verb, count (waiting + 1)) :: s.reports
      queued := ⟨none, code⟩ :: s.queued }
  | .queuesAll verb _ tasks next, waiting =>
    let s := next.segment count (waiting + tasks.length)
    { s with
      reports := (verb, count (waiting + tasks.length)) :: s.reports
      queued := tasks.map Job.of ++ s.queued }

/-- What a job does; if it had yielded, that yield is over first. -/
def Job.segment (count : Nat → Datum) (j : Job) (waiting : Nat) : Segment :=
  let s := j.code.segment count waiting
  { s with reports := (j.back.map fun verb => (verb, Datum.null)).toList ++ s.reports }

mutual

/-- The length of a body, with all the tasks that it queues. -/
def Code.size : Code → Nat
  | .ends _ => 1
  | .notes _ _ next => next.size + 1
  | .yields _ next => next.size + 1
  | .queues _ _ _ _ code next => code.size + next.size + 1
  | .queuesAll _ _ tasks next => Code.sizes tasks + next.size + 1

def Code.sizes : List (Origin × Code) → Nat
  | [] => 0
  | (_, code) :: tasks => code.size + Code.sizes tasks

end

/-- What some jobs still have to do. -/
def Job.work (js : List Job) : Nat := (js.map fun j => j.code.size).sum

@[simp] theorem Job.work_nil : Job.work [] = 0 := rfl

@[simp] theorem Job.work_cons (j : Job) (js : List Job) :
    Job.work (j :: js) = j.code.size + Job.work js := rfl

@[simp] theorem Job.work_append (js ks : List Job) :
    Job.work (js ++ ks) = Job.work js + Job.work ks := by
  simp only [Job.work, List.map_append, List.sum_append]

@[simp] theorem Job.work_tasks (tasks : List (Origin × Code)) :
    Job.work (tasks.map Job.of) = Code.sizes tasks := by
  induction tasks with
  | nil => rfl
  | cons t tasks ih => rw [List.map_cons, Job.work_cons, ih, Job.of, Code.sizes]

theorem Code.segment_work (count : Nat → Datum) : ∀ (code : Code) (waiting : Nat),
    Job.work (code.segment count waiting).queued + Job.work (code.segment count waiting).left <
      code.size
  | .ends _, _ => Nat.zero_lt_one
  | .notes _ _ next, waiting => Nat.lt_succ_of_lt (next.segment_work count waiting)
  | .yields _ next, _ => by
    simp only [segment, Job.work_cons, Job.work_nil, size]
    omega
  | .queues _ _ _ _ code next, waiting => by
    have less := next.segment_work count (waiting + 1)
    simp only [segment, Job.work_cons, size]
    omega
  | .queuesAll _ _ tasks next, waiting => by
    have less := next.segment_work count (waiting + tasks.length)
    simp only [segment, Job.work_append, Job.work_tasks, size]
    omega

/-- What the machine reports until its queue is empty. -/
def drain (count : Nat → Datum) : List Job → List (String × Datum)
  | [] => []
  | j :: js =>
    let s := j.segment count js.length
    s.reports ++ drain count (js ++ s.queued ++ s.left)
termination_by js => Job.work js
decreasing_by
  have less := Code.segment_work count j.code js.length
  simp only [Job.work_append, Job.work_cons, Job.segment]
  omega

mutual

/-- The verbs of a body and of all the tasks that it queues. -/
def Code.verbs : Code → List String
  | .ends _ => []
  | .notes verb _ next => verb :: next.verbs
  | .yields verb next => verb :: next.verbs
  | .queues verb _ _ _ code next => verb :: (code.verbs ++ next.verbs)
  | .queuesAll verb _ tasks next => verb :: (Code.allVerbs tasks ++ next.verbs)

def Code.allVerbs : List (Origin × Code) → List String
  | [] => []
  | (_, code) :: tasks => code.verbs ++ Code.allVerbs tasks

end

/-- The verbs that a job has still to report. -/
def Job.verbs (j : Job) : List String := j.back.toList ++ j.code.verbs

theorem Job.verbs_tasks (tasks : List (Origin × Code)) :
    (tasks.map Job.of).flatMap Job.verbs = Code.allVerbs tasks := by
  induction tasks with
  | nil => rfl
  | cons t tasks ih =>
    rw [List.map_cons, List.flatMap_cons, ih, Code.allVerbs]
    rfl

/-- A segment reports some verbs of its body and leaves the others to what it queued and to its
rest. -/
theorem Code.segment_verbs (count : Nat → Datum) : ∀ (code : Code) (waiting : Nat),
    ((code.segment count waiting).reports.map Prod.fst ++
      ((code.segment count waiting).queued ++ (code.segment count waiting).left).flatMap
        Job.verbs).Perm code.verbs
  | .ends _, _ => .nil
  | .notes verb _ next, waiting => (next.segment_verbs count waiting).cons verb
  | .yields verb next, _ => by
    simp only [segment, verbs, Job.verbs, List.map_nil, List.nil_append, List.flatMap_cons,
      List.flatMap_nil, List.append_nil, Option.toList_some]
    exact .refl _
  | .queues verb _ _ _ code next, waiting => by
    have rest := next.segment_verbs count (waiting + 1)
    simp only [segment, verbs, List.map_cons, List.cons_append, List.flatMap_cons]
    refine List.Perm.cons verb ?_
    exact (List.perm_append_comm_assoc ..).trans (rest.append_left code.verbs)
  | .queuesAll verb _ tasks next, waiting => by
    have rest := next.segment_verbs count (waiting + tasks.length)
    simp only [segment, verbs, List.map_cons, List.cons_append, List.append_assoc,
      List.flatMap_append, Job.verbs_tasks] at rest ⊢
    refine List.Perm.cons verb ?_
    exact (List.perm_append_comm_assoc ..).trans (rest.append_left (Code.allVerbs tasks))

theorem Job.segment_verbs (count : Nat → Datum) (j : Job) (waiting : Nat) :
    ((j.segment count waiting).reports.map Prod.fst ++
      ((j.segment count waiting).queued ++ (j.segment count waiting).left).flatMap
        Job.verbs).Perm j.verbs := by
  have rest := j.code.segment_verbs count waiting
  unfold Job.segment Job.verbs
  cases j.back with
  | none => exact rest
  | some verb => exact rest.cons verb

/-- Every action of every job is reported once. -/
theorem drain_verbs (count : Nat → Datum) (js : List Job) :
    ((drain count js).map Prod.fst).Perm (js.flatMap Job.verbs) := by
  induction js using drain.induct count with
  | case1 =>
    rw [drain]
    exact .nil
  | case2 j js s ih =>
    rw [drain, List.map_append, List.flatMap_cons]
    refine ((ih.append_left _).trans ?_).trans ((j.segment_verbs count js.length).append_right _)
    simp only [s, List.flatMap_append, List.append_assoc]
    refine List.Perm.append_left _ ?_
    exact List.perm_append_comm.trans (.of_eq (List.append_assoc ..))

mutual

/-- The body in which every panic, here and in the tasks that it queues, is a return. -/
def Code.calm : Code → Code
  | .ends _ => .ends none
  | .notes verb d next => .notes verb d next.calm
  | .yields verb next => .yields verb next.calm
  | .queues verb scheduler pinned origin code next =>
    .queues verb scheduler pinned origin code.calm next.calm
  | .queuesAll verb scheduler tasks next => .queuesAll verb scheduler (Code.calmAll tasks) next.calm

def Code.calmAll : List (Origin × Code) → List (Origin × Code)
  | [] => []
  | (origin, code) :: tasks => (origin, code.calm) :: Code.calmAll tasks

end

def Job.calm (j : Job) : Job := { j with code := j.code.calm }

theorem Code.calmAll_eq (tasks : List (Origin × Code)) :
    Code.calmAll tasks = tasks.map fun t => (t.1, t.2.calm) := by
  induction tasks with
  | nil => rfl
  | cons t tasks ih => rw [Code.calmAll, ih, List.map_cons]

theorem Code.segment_calm (count : Nat → Datum) : ∀ (code : Code) (waiting : Nat),
    code.calm.segment count waiting =
      { reports := (code.segment count waiting).reports
        queued := (code.segment count waiting).queued.map Job.calm
        left := (code.segment count waiting).left.map Job.calm }
  | .ends _, _ => rfl
  | .notes _ _ next, waiting => by
    simp only [calm, segment, next.segment_calm count waiting]
  | .yields _ _, _ => rfl
  | .queues _ _ _ _ code next, waiting => by
    simp only [calm, segment, next.segment_calm count (waiting + 1), List.map_cons, Job.calm]
  | .queuesAll _ _ tasks next, waiting => by
    simp only [calm, segment, calmAll_eq, List.length_map,
      next.segment_calm count (waiting + tasks.length), List.map_append, List.map_map]
    rfl

/-- The machine reports the same whether bodies panic or return. -/
theorem drain_calm (count : Nat → Datum) (js : List Job) :
    drain count (js.map Job.calm) = drain count js := by
  induction js using drain.induct count with
  | case1 => rfl
  | case2 j js s ih =>
    have calm : j.calm.segment count (js.map Job.calm).length =
        { s with queued := s.queued.map Job.calm, left := s.left.map Job.calm } := by
      simp only [s, Job.segment, Job.calm, List.length_map, j.code.segment_calm count js.length]
    rw [List.map_cons, drain, drain, calm, ← ih]
    simp only [List.map_append]
    rfl

end Fibers.Script
