import Fibers.Proofs.Manager.Effects
import Fibers.Proofs.Manager.History

/-!
The books of a manager: all that is still to be run, the fibers that wait for their turn, and what
was noted of the work so far. The books balance if every body that is owed was dropped, has begun or
is still to be run, and every sleep that began is over or has a timer that will end it.
-/

namespace Fibers.Script

open Reactor (Registry)

/-- What a body has still to do. -/
structure Tail where
  blocks : List (List Step × String)
  /-- Whether it is the callback of a timer. -/
  timer : Bool

namespace Tail

def frames (t : Tail) (id : FiberId) : List Frame :=
  t.blocks.map (fun b => .steps b.1 b.2) ++
    ((if t.timer then [.release []] else []) ++ [.fiberBody id])

/-- Some steps are to be done before. -/
def after (t : Tail) (label : String) : List Step → Tail
  | [] => t
  | steps => { t with blocks := (steps, label) :: t.blocks }

theorem frames_after (t : Tail) (label : String) (steps : List Step) (id : FiberId) :
    (t.after label steps).frames id = stepFrames label steps ++ t.frames id := by
  cases steps <;> rfl

end Tail

/-- How a fiber was left that waits for its turn. -/
inductive Posture where
  | fresh (block : Nat) (label : String)
  /-- It yielded. -/
  | ready (verb label : String) (rest : Tail)
  /-- It sleeps, or is to be told that it has slept. -/
  | asleep (verb label : String) (rest : Tail)

namespace Posture

def isAsleep : Posture → Bool
  | asleep .. => true
  | _ => false

/-- The body that it has not begun. -/
def bodies : Posture → List Body
  | fresh block label => [.script block label]
  | _ => []

/-- What is known of the fiber. -/
def cell (p : Station) (id : FiberId) (handles : Nat) : Posture → Cell
  | fresh block label => ⟨id, .init, some (.script block label), handles, some [.fiberStart id]⟩
  | ready verb label rest =>
    ⟨id, .ready, none, handles, some (.report verb label :: rest.frames id)⟩
  | asleep verb label rest =>
    ⟨id, .hold, none, handles,
      some (.release [.scheduler p.scheduler, .reactor p.reactor] :: .answerClock ::
        .report verb label :: rest.frames id)⟩

theorem cell_id (p : Station) (id : FiberId) (n : Nat) (x : Posture) : (x.cell p id n).id = id := by
  cases x <;> rfl

end Posture

def TimerBody.isWake : TimerBody → Bool
  | .wake .. => true
  | _ => false

/-- The fiber that a task resumes or queues. -/
def taskFibers : Task Body → List FiberId
  | .fiber id => [id]
  | .callback (.timer (.wake _ id)) => [id]
  | .callback _ => []

/-- Whether a task queues a sleeping fiber. -/
def isWakeTask : Task Body → Bool
  | .callback (.timer b) => b.isWake
  | _ => false

/-- The bodies that a task has still to begin. -/
def taskBodies (post : FiberId → Posture) : Task Body → List Body
  | .fiber id => (post id).bodies
  | .callback body => [body]

/-- A task that a manager is given: a fiber, or a callback of a script, a timer or a sleep. -/
def Station.Takes (p : Station) : Task Body → Prop
  | .fiber _ => True
  | .callback (.script ..) => True
  | .callback (.timer (.wake s _)) => s = p.scheduler
  | .callback (.timer _) => True
  | .callback _ => False

/-- A body of a script or of a timer of a script. -/
inductive Body.Plain : Body → Prop where
  | script (block : Nat) (label : String) : Plain (.script block label)
  | timer (b : TimerBody) (script : b.isWake = false) : Plain (.timer b)

theorem Body.Plain.takes {body : Body} (h : body.Plain) (p : Station) :
    p.Takes (.callback body) := by
  cases h with
  | script => trivial
  | timer b script =>
    cases b with
    | wake => cases script
    | _ => trivial

theorem Body.Plain.fibers {body : Body} (h : body.Plain) : taskFibers (.callback body) = [] := by
  cases h with
  | script => rfl
  | timer b script =>
    cases b with
    | wake => cases script
    | _ => rfl

theorem Body.Plain.notWake {body : Body} (h : body.Plain) :
    isWakeTask (.callback body) = false := by
  cases h with
  | script => rfl
  | timer b script => exact script

/-- What is known besides the scene. -/
structure Books where
  /-- The fibers of the run loop and the running one. -/
  known : List Cell
  chain : List FiberId
  registry : Registry Handler
  /-- All that is still to be run. -/
  tasks : List (Task Body)
  /-- The task that was taken and has not begun. -/
  hand : List (Task Body)
  post : FiberId → Posture
  /-- Handles of a waiting fiber besides one. -/
  spare : FiberId → Nat
  /-- A fiber that was resumed and is still to be told that it has slept. -/
  risen : List FiberId
  /-- The handles of the scheduler and of the reactor that frames hold. -/
  due : Nat
  lent : Nat
  /-- Last note first. -/
  notes : List Note

namespace Books

/-- The fibers that wait for their turn. -/
def fibers (b : Books) : List FiberId := b.tasks.flatMap taskFibers

def crew (b : Books) (p : Station) : List Cell :=
  b.fibers.map fun id => (b.post id).cell p id (b.spare id + 1)

def sleepers (b : Books) : List FiberId :=
  b.risen ++ b.fibers.filter fun id => (b.post id).isAsleep

def bodies (b : Books) : List Body := b.tasks.flatMap (taskBodies b.post)

/-- The tasks are lawful, and the books balance. -/
structure Sound (b : Books) (p : Station) : Prop where
  takes : ∀ t ∈ b.tasks, p.Takes t
  drowsy : ∀ t ∈ b.tasks, isWakeTask t = true → ∀ id ∈ taskFibers t, (b.post id).isAsleep = true
  balance : ∀ body, b.notes.count (.owed body) =
    b.notes.count (.dropped body) + b.notes.count (.begun body) + b.bodies.count body
  sleeps : ∀ id, b.notes.count (.asleep id) = b.notes.count (.awake id) + b.sleepers.count id

namespace Sound

variable {b : Books} {p : Station} {body : Body} {id : FiberId} {rest tasks : List (Task Body)}
  {t : Task Body}

theorem perm (h : b.Sound p) (same : b.tasks.Perm tasks) : Sound { b with tasks := tasks } p where
  takes t mem := h.takes t (same.mem_iff.mpr mem)
  drowsy t mem := h.drowsy t (same.mem_iff.mpr mem)
  balance body := by
    rw [h.balance body]
    exact congrArg _ ((same.flatMap_right _).count_eq body)
  sleeps id := by
    rw [h.sleeps id]
    have fibers : b.fibers.Perm (fibers { b with tasks := tasks }) := same.flatMap_right _
    exact congrArg _ (((fibers.filter _).append_left b.risen).count_eq id)

/-- The postures of the fibers that wait are all that counts. -/
theorem congr (h : b.Sound p) {post : FiberId → Posture}
    (same : ∀ id ∈ b.fibers, post id = b.post id) : Sound { b with post := post } p where
  takes := h.takes
  drowsy t mem wakes id member := by
    change (post id).isAsleep = true
    rw [same id (List.mem_flatMap.mpr ⟨t, mem, member⟩)]
    exact h.drowsy t mem wakes id member
  balance body := by
    have bodies : bodies { b with post := post } = b.bodies := by
      refine List.flatMap_congr fun t mem => ?_
      cases t with
      | callback => rfl
      | fiber id =>
        have waits : id ∈ b.fibers := List.mem_flatMap.mpr ⟨_, mem, List.mem_singleton.mpr rfl⟩
        simp only [taskBodies, same id waits]
    rw [bodies]
    exact h.balance body
  sleeps id := by
    have sleepers : sleepers { b with post := post } = b.sleepers := by
      refine congrArg (b.risen ++ ·) (List.filter_congr fun j mem => ?_)
      exact congrArg Posture.isAsleep (same j mem)
    rw [sleepers]
    exact h.sleeps id

/-- Some tasks take the place of others. What is noted of it has to make up for the difference. -/
theorem exchange (h : b.Sound p) (old new : List (Task Body)) (extra : List Note)
    (risen : List FiberId) (tasks : b.tasks.Perm (old ++ rest))
    (takes : ∀ t ∈ new, p.Takes t)
    (drowsy : ∀ t ∈ new, isWakeTask t = true → ∀ id ∈ taskFibers t, (b.post id).isAsleep = true)
    (balance : ∀ body, extra.count (.owed body) + (old.flatMap (taskBodies b.post)).count body =
      extra.count (.dropped body) + extra.count (.begun body) +
        (new.flatMap (taskBodies b.post)).count body)
    (sleeps : ∀ id,
      extra.count (.asleep id) +
          (b.risen.count id +
            ((old.flatMap taskFibers).filter fun id => (b.post id).isAsleep).count id) =
        extra.count (.awake id) +
          (risen.count id +
            ((new.flatMap taskFibers).filter fun id => (b.post id).isAsleep).count id)) :
    Sound { b with tasks := new ++ rest, risen := risen, notes := extra ++ b.notes } p := by
  have h := h.perm tasks
  refine ⟨fun t mem => ?_, fun t mem => ?_, fun body => ?_, fun id => ?_⟩
  · rcases List.mem_append.mp mem with mem | mem
    · exact takes t mem
    · exact h.takes t (List.mem_append_right _ mem)
  · rcases List.mem_append.mp mem with mem | mem
    · exact drowsy t mem
    · exact h.drowsy t (List.mem_append_right _ mem)
  · have before := h.balance body
    have change := balance body
    simp only [bodies, List.flatMap_append, List.count_append] at before ⊢
    omega
  · have before := h.sleeps id
    have change := sleeps id
    simp only [sleepers, fibers, List.flatMap_append, List.filter_append, List.count_append]
      at before change ⊢
    omega

end Sound

end Books

end Fibers.Script
