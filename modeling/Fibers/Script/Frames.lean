import Fibers.Script.Perform.Demo
import Fibers.Script.Perform.Log
import Fibers.Script.Perform.Primitive
import Fibers.Script.Perform.Timer

/-!
What each frame does when the thing above it has ended. `proceed` says it for an end that is no
failure; `unwind` says it for a failure or a panic on its way to someone who catches it, which lets
go of everything that the frames on the way hold.
-/

namespace Fibers.Script

/-- Performs an action; scripts that it starts inherit a label. -/
def perform (label : String) : Action → Act Signal
  | .fiber a => performFiber label a
  | .scheduler a => performScheduler label a
  | .reactor a => performReactor label a
  | .timer a => performTimer label a
  | .primitive a => performPrimitive a
  | .log a => performLog a
  | .demo a => performDemo a

/-- Starts a step. -/
def startStep (label : String) : Step → Act Signal
  | .perform verb a => do
    push (.report verb label)
    perform label a
  | .uncaught verb a => do
    push (.reportSuccess verb label)
    perform label a
  | .require a => do
    push .require
    perform label a
  | .panic p => raise p

/-- Starts the first of some steps. -/
def startSteps (label : String) : List Step → Act Signal
  | [] => return .done .null
  | [step] => startStep label step
  | step :: rest => do
    push (.steps rest label)
    startStep label step

/-- A signal as an answer. -/
def Signal.datum : Signal → Datum
  | .done d => d
  | .left s => .text s.render
  | .polled (.ok found) => .list (found.map fun f => .list [.number f.1, .text f.2.render])
  | .polled (.error e) => (Failure.os e).datum
  | .failed f => f.datum
  | .raised p => panicDatum p

/-- A fiber runs its body for the first time. -/
def startFiber (id : FiberId) : Act Signal := do
  let (fibers, entry) := (← get).fibers.takeEntry id
  modify fun w => { w with fibers := fibers }
  match entry with
  | none => finish id .term
  | some body =>
    push (.fiberBody id)
    startBody body

/-- The stack of an ended fiber was entered once more. -/
def reenterEnded : Act Signal := do
  logError "terminated fiber resumed"
  abort

/-- The state in which a resumed fiber left. -/
def Signal.state : Signal → FiberState
  | .left s => s
  | _ => .except

/-- Goes on after an end that is no failure. -/
def proceed (s : Signal) : Frame → Act Signal
  | .steps rest label => startSteps label rest
  | .report verb label | .reportSuccess verb label => do
    report verb label s.datum
    return .done .null
  | .require => do
    modify fun w => { w with answer := s.datum }
    return .done .null
  | .iterate 0 _ _ => return .done .null
  | .iterate (n + 1) block label => do
    push (.iterate n block label)
    startBlock block label
  | .release handles => do
    release handles
    return s
  | .answer d => return .done d
  | .answerClock => return .done (← clockAnswer)
  | .answerWorker => return .done (.natOrNull (← thread).worker)
  | .answerScheduler => return .done (← get).currentName
  | .answerPolled =>
    match s with
    | .polled (.error e) => fail (.os e)
    | s => return .done s.datum
  | .switched caller block label => do
    push (.switchBack caller)
    startBlock block label
  | .switchBack caller => switchBack caller s
  | .switchedBack caller outcome => do
    release [.scheduler caller]
    return outcome
  | .callbacks [] count => return .done (.nat count)
  | .callbacks (b :: rest) count => do
    push (.callbacks rest count)
    push (.release b.handles)
    startTimer b
  | .fiberStart id => startFiber id
  | .fiberBody id => finish id .term
  | .fiberEnd => reenterEnded
  | .workerStart scheduler worker => enterWorker scheduler worker
  | .workerEnd scheduler => leaveWorker scheduler
  | .loop l => turn l
  | .loopFiber l id => turnedFiber l id s.state
  | .loopCallback l id => turnedCallback l id s.state
  | .loopIdle l => turnedIdle l
  | .idleParking scheduler => idleParking scheduler
  | .idleParked scheduler => idleParked scheduler
  | .idleScripts scheduler rest label => idleScripts scheduler label rest
  | .idleScriptDone scheduler rest label => idleScriptDone scheduler label rest
  | .idleRounds scheduler rounds label => idleRounds scheduler label rounds
  | .idleReactor scheduler reactor => idleReactor scheduler reactor
  | .idlePoll reactor timeout =>
    match s with
    | .polled res => idlePoll reactor timeout res
    | _ => return .polled (.ok [])
  | .idlePolled scheduler reactor =>
    match s with
    | .polled (.ok found) => idlePolled scheduler reactor found
    | _ => idlePolled scheduler reactor []
  | .stopJoin scheduler => stopJoin scheduler
  | .stopJoining scheduler threads => stopJoining scheduler threads
  | .startReady scheduler => startReady scheduler
  | .ioStarted name scheduler reactor => nameReactor name scheduler reactor
  | .threadJoined thread => do
    match (← get).panicOf thread with
    | some p => return .done (panicDatum p)
    | none => return .done .null

/-- The handles that a frame lets go of when a panic passes it. -/
def Frame.held : Frame → List Handle
  | .release handles => handles
  | .switched caller _ _ => (caller.map Handle.scheduler).toList
  | .switchedBack caller _ => [.scheduler caller]
  | .callbacks rest _ => rest.flatMap TimerBody.handles
  | .workerEnd scheduler => [.scheduler scheduler]
  | .loop l | .loopIdle l => l.handles
  | .loopFiber l id | .loopCallback l id => .fiber id :: l.handles
  | .ioStarted _ scheduler reactor => [.scheduler scheduler, .reactor reactor]
  | _ => []

/-- Whether a panic is on its way. -/
def Signal.isRaised : Signal → Bool
  | .raised _ => true
  | _ => false

/-- Goes on with a panic on its way. -/
def unwindPanic (p : Panic) : Frame → Act Signal
  | .report verb label => do
    report verb label (panicDatum p)
    return .done .null
  | .fiberBody id => finishPanicked id p
  | .fiberEnd => reenterEnded
  | .switchBack caller => switchBack caller (.raised p)
  | .switchedBack caller outcome => do
    if outcome.isRaised then abort
    release [.scheduler caller]
    return .raised p
  | f => do
    release f.held
    return .raised p

/-- Goes on with a failure on its way. -/
def unwindFailure (x : Failure) : Frame → Act Signal
  | .report verb label | .reportSuccess verb label => do
    report verb label x.datum
    return .done .null
  | .require => return .raised (.text x.datum.compact)
  | f => do
    release f.held
    return .failed x

/-- What a frame does when the thing above it has ended. -/
def proceedWith (f : Frame) : Signal → Act Signal
  | .raised p => unwindPanic p f
  | .failed x => unwindFailure x f
  | s => proceed s f

end Fibers.Script
