import Fibers.Script.Machine
import Fibers.Script.Trace

/-!
A tour of fibers: one that is resumed by hand, four that share a scheduler, and a callback for each
worker.
-/

namespace Fibers.Demo

open Fibers.Script

/-- Prints a line. -/
def say (line : List Piece) : Step := .require (.demo (.print line))

/-- Writes a line to the log. -/
def note (l : Log.Level) (line : List Piece) : Step := .require (.demo (.write l line))

/-- Settings from the environment with some choices on top. -/
def settingsWith (choices : List SchedulerConfig.Choice) : SchedulerConfig.Spec :=
  ⟨true, .empty, choices⟩

/-- The number of workers that the environment asks for. -/
def askedWorkers (env : Environment) : Nat := env.natural 64 "FIO_THREADS" 3

/-- The body of the fiber that is resumed by hand. -/
def manualBody : List Step :=
  (List.range 3).flatMap fun i =>
    [.require (.demo (.tally "steps")),
     note .debug [.text s!"[manual] step {i}"],
     .require (.fiber .yieldHold)]

/-- The body of a fiber on the scheduler. -/
def sharedBody (i : Nat) : List Step :=
  [note .debug [.text s!"[fiber {i}] started"]] ++
    (List.range 3).flatMap (fun j =>
      [note .debug [.text s!"[fiber {i}] iteration {j}"],
       .require (.fiber .yieldNow)]) ++
    [note .debug [.text s!"[fiber {i}] finished"],
     .require (.demo (.tally "completed"))]

/-- The body of a callback for one worker. -/
def pinnedBody (worker : Nat) : List Step :=
  [note .debug [.text s!"[pinned] running on worker {worker}"],
   .require (.demo (.tally "completed"))]

/-- Resumes the manual fiber once. -/
def manualTurn : List Step :=
  [.require (.fiber (.resume "manual")),
   say [.text "manual fiber ", .fiberId "manual", .text " yielded in state ", .lastAnswer]]

/-- Makes the shared fiber `i`, whose body is a block, and hands it to the scheduler. -/
def scheduleShared (i block : Nat) : List Step :=
  let name := s!"fiber {i}"
  [.require (.fiber (.spawn name ⟨.block block, none, none, true, none⟩)),
   say [.text s!"Scheduled fiber {i} (ID=", .fiberId name, .text ")"],
   .require (.scheduler (.schedule "basic" (.fiber name))),
   .require (.fiber (.drop name))]

/-- Pins a callback, whose body is a block, to a worker. -/
def schedulePinned (worker block : Nat) : Step :=
  .require (.scheduler (.scheduleOn "basic" (.callback (.block block) none) worker))

/-- What the main thread does. -/
def basicMain (workers : Nat) : List Step :=
  let config := settingsWith [.threads workers, .useCaller true, .name "basic"]
  [say [.text "=== fibrio Basic Example ===\n"],
   .require (.demo .initLog),
   .require (.fiber (.spawn "manual" ⟨.block 1, none, some false, false, none⟩))] ++
    manualTurn ++ manualTurn ++ manualTurn ++ manualTurn ++
    [say [.text "manual fiber ran ", .tally "steps", .text " steps\n"],
     .require (.log (.printConfig config)),
     .require (.scheduler (.new "basic" config none)),
     .require (.scheduler (.start "basic")),
     note .info [.text "Scheduling fibers..."]] ++
    (List.range 4).flatMap (fun i => scheduleShared (i + 1) (i + 2)) ++
    (List.range workers).map (fun i => schedulePinned i (i + 6)) ++
    [say [.text "\n", .scheduler "basic", .text "\n"],
     .require (.scheduler (.stop "basic")),
     note .info [.tally "completed", .text " task(s) completed"],
     say [.tally "completed", .text " task(s) completed, ", .liveFibers, .text " fiber(s) alive"],
     say [.text "\n=== Example Complete ==="],
     .require (.scheduler (.drop "basic"))]

def basicProgram (workers : Nat) : Program where
  blocks :=
    ([basicMain workers, manualBody] ++ (List.range 4).map (fun i => sharedBody (i + 1)) ++
      (List.range workers).map pinnedBody).toArray

/-- Runs the tour in an environment. -/
def basic (env : Environment) : World :=
  (World.start (basicProgram (askedWorkers env)) .frozen env .fresh false none "main").run

end Fibers.Demo
