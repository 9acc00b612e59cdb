import Fibers.Fiber.Control
import Fibers.Log.Settings
import Fibers.Parking
import Fibers.Reactor.Poller
import Fibers.Scheduler.Shared
import Fibers.Script.Action
import Fibers.Semaphore
import Fibers.Timer.Basic

/-!
The world a script runs in: fibers, threads, schedulers, reactors, timers, the operating system, the
names by which scripts know them, and the trace of what happened.

What a stack still has to do is a list of frames, the innermost first. A frame waits for a signal:
how the thing above it ended. The frames of the stack that a thread runs are with the thread; those
of every other stack are kept under its fiber.
-/

namespace Fibers.Script

abbrev SchedulerId := Nat
abbrev ReactorId := Nat
abbrev ThreadId := Nat

/-- What a timer runs. -/
inductive TimerBody where
  | script (block : Nat) (label : String)
  /-- Runs only while an object is alive. -/
  | guarded (object : Nat) (block : Nat) (label : String)
  /-- Queues a sleeping fiber. -/
  | wake (scheduler : SchedulerId) (fiber : FiberId)
  deriving DecidableEq, Inhabited, Repr

/-- What a fiber runs. -/
inductive Body where
  | script (block : Nat) (label : String)
  | timer (b : TimerBody)
  /-- The run loop of worker 0 on the thread that made the scheduler. -/
  | root (scheduler : SchedulerId)
  /-- What a worker does when there is nothing to do. -/
  | idle (scheduler : SchedulerId)
  deriving DecidableEq, Inhabited, Repr

/-- Something that is kept alive by handles. -/
inductive Handle where
  | fiber (id : FiberId)
  | scheduler (id : SchedulerId)
  | reactor (id : ReactorId)
  deriving DecidableEq, Inhabited, Repr

/-- The handles that a timer's callback holds. -/
def TimerBody.handles : TimerBody → List Handle
  | .wake s f => [.scheduler s, .fiber f]
  | _ => []

/-- The handles that a body holds before it runs. -/
def Body.handles : Body → List Handle
  | .timer b => b.handles
  | _ => []

def taskHandles : Task Body → List Handle
  | .fiber id => [.fiber id]
  | .callback b => b.handles

/-- What a descriptor's event queues, and where. -/
structure Handler where
  scheduler : SchedulerId
  task : Task Body
  deriving DecidableEq, Inhabited, Repr

def Handler.handles (h : Handler) : List Handle := .scheduler h.scheduler :: taskHandles h.task

/-- How the workers of a scheduler wait and are woken. -/
inductive Hooks where
  | parking (place : Parking)
  | scripted (idle : List Nat) (stopping : Option Bool) (tickles : Nat) (label : String)
  | reactor (id : ReactorId)
  deriving Inhabited

structure SchedulerRecord where
  config : SchedulerConfig
  hooks : Hooks
  shared : Shared Body
  /-- The fiber with the run loop of worker 0, and the thread that may resume it. -/
  root : Option FiberId
  owner : Option ThreadId
  /-- Worker threads to be joined. -/
  workers : List ThreadId
  /-- The number of threads that reported their identity. -/
  threadIds : Nat
  handles : Nat
  deriving Inhabited

structure ReactorRecord where
  config : ReactorConfig
  epoll : Nat
  table : Reactor.FdTable Handler
  timers : Nat
  handles : Nat
  deriving Inhabited

/-- Who is told when a timer comes to the front. -/
inductive Front where
  | tally (n : Nat)
  | epoll (id : Nat)
  deriving DecidableEq, Inhabited, Repr

structure TimerSet where
  timers : Timers TimerBody
  front : Front
  deriving Inhabited

/-- How the thing above a frame ended. -/
inductive Signal where
  | done (d : Datum)
  /-- A resume returned, the resumed fiber having left in a state. -/
  | left (s : FiberState)
  /-- A wait of a poller returned. -/
  | polled (r : Except OsError (List (Int × Event)))
  | failed (f : Failure)
  | raised (p : Panic)
  deriving Inhabited

/-- The data of a worker's run loop. -/
structure Loop where
  scheduler : SchedulerId
  worker : Nat
  idleFiber : FiberId
  /-- Finished callback fibers for reuse, the last one first. -/
  pool : List FiberId
  deriving DecidableEq, Inhabited, Repr

/-- The handles that a run loop holds, in the order in which it lets go of them. -/
def Loop.handles (l : Loop) : List Handle := l.pool.reverse.map .fiber ++ [.fiber l.idleFiber]

/-- What a stack still has to do. -/
inductive Frame where
  /-- Runs steps. -/
  | steps (rest : List Step) (label : String)
  /-- Catches a panic and reports how an action ended. -/
  | report (verb label : String)
  /-- Reports an action that ended well. -/
  | reportSuccess (verb label : String)
  /-- Keeps an answer; turns a failure into a panic. -/
  | require
  | iterate (n : Nat) (block : Nat) (label : String)
  /-- Lets go of handles. -/
  | release (handles : List Handle)
  /-- Answers something fixed or something of the moment. -/
  | answer (d : Datum)
  | answerClock
  | answerWorker
  | answerScheduler
  | answerPolled
  /-- The part of a switcher that runs its script. -/
  | switched (caller : Option SchedulerId) (block : Nat) (label : String)
  | switchBack (caller : Option SchedulerId)
  | switchedBack (caller : SchedulerId) (outcome : Signal)
  /-- Runs the rest of the due callbacks. -/
  | callbacks (rest : List TimerBody) (count : Nat)
  /-- Bottom frames of stacks. -/
  | fiberStart (id : FiberId)
  | fiberBody (id : FiberId)
  | fiberEnd
  | workerStart (scheduler : SchedulerId) (worker : Nat)
  | workerEnd (scheduler : SchedulerId)
  /-- A worker's run loop, before it takes a task and after a resume. -/
  | loop (l : Loop)
  | loopFiber (l : Loop) (fiber : FiberId)
  | loopCallback (l : Loop) (fiber : FiberId)
  | loopIdle (l : Loop)
  /-- The idle fibers. -/
  | idleParking (scheduler : SchedulerId)
  | idleParked (scheduler : SchedulerId)
  | idleScripts (scheduler : SchedulerId) (rest : List Nat) (label : String)
  | idleScriptDone (scheduler : SchedulerId) (rest : List Nat) (label : String)
  | idleRounds (scheduler : SchedulerId) (rounds : Nat) (label : String)
  | idleReactor (scheduler : SchedulerId) (reactor : ReactorId)
  | idlePoll (reactor : ReactorId) (timeout : Duration)
  | idlePolled (scheduler : SchedulerId) (reactor : ReactorId)
  /-- Stopping and starting. -/
  | stopJoin (scheduler : SchedulerId)
  | stopJoining (scheduler : SchedulerId) (threads : List ThreadId)
  | startReady (scheduler : SchedulerId)
  | ioStarted (name : String) (scheduler : SchedulerId) (reactor : ReactorId)
  | threadJoined (thread : ThreadId)
  deriving Inhabited

/-- What a thread waits for. -/
inductive Wait where
  | flag (name : String)
  | semaphore (id : Nat) (until? : Option Instant)
  | place (id : Nat) (until? : Option Instant)
  | hooksPlace (scheduler : SchedulerId) (until? : Option Instant)
  | thread (id : ThreadId)
  | workersUp (threads : List ThreadId)
  | epoll (id : Nat) (millis : Int) (until? : Option Instant)
  | moment (t : Instant)
  deriving DecidableEq, Inhabited, Repr

structure Thread where
  worker : Option Nat
  current : Option FiberId
  main : Option FiberId
  scheduler : Option SchedulerId
  frames : List Frame
  signal : Signal
  wait : Option Wait
  /-- Set once the thread has ended: what it panicked with, if it did. -/
  ended : Option (Option Panic)
  /-- A worker thread that has reported its identity. -/
  up : Bool
  deriving Inhabited

/-- Something that happened, in a thread's own place: no worker, or a worker of an index. -/
inductive Happening where
  | action (who verb : String) (result : Datum)
  | logged (kind level text : String)
  deriving Inhabited

/-- An entry of the trace with the worker on whose fiber it happened. -/
structure Entry where
  place : Option Nat
  event : Happening
  deriving Inhabited

/-- The names that scripts use. -/
structure Names where
  fibers : Table String FiberId
  schedulers : Table String SchedulerId
  reactors : Table String (SchedulerId × ReactorId)
  timerSets : Table String Nat
  timers : Table String (Nat × Nat)
  objects : Table String Nat
  epolls : Table String Nat
  counters : Table String Nat
  semaphores : Table String Nat
  places : Table String Nat
  deriving Inhabited

def Names.empty : Names :=
  ⟨.empty, .empty, .empty, .empty, .empty, .empty, .empty, .empty, .empty, .empty⟩

/-- How time passes. -/
inductive Timing where
  /-- The clock stands still; a thread that would wait for time to pass goes on at once. -/
  | frozen
  /-- Every slice of work takes some time, and threads wait. -/
  | flowing
  deriving DecidableEq, Inhabited, Repr

structure World where
  program : Program
  timing : Timing
  environment : Environment
  /-- What the clock reads. What a script adds to it goes round at the last reading. -/
  clock : Instant
  settings : Log.Settings
  /-- Whether log lines carry their context. -/
  contextual : Bool
  sink : Option SinkSpec
  fibers : FiberTable Body
  saved : Table FiberId (List Frame)
  threads : Table ThreadId Thread
  /-- The thread whose turn it is. -/
  running : ThreadId
  schedulers : Table SchedulerId SchedulerRecord
  reactors : Table ReactorId ReactorRecord
  timerSets : Table Nat TimerSet
  /-- The objects that are alive. -/
  objects : List Nat
  semaphores : Table Nat Semaphore
  places : Table Nat Parking
  kernel : Kernel.State
  names : Names
  flags : List String
  /-- The last identity given to a scheduler, a reactor, a thread or a smaller thing. -/
  lastId : Nat
  /-- The trace, last entry first. -/
  trace : List Entry
  /-- Pieces of the two outputs, last one first. -/
  stdout : List String
  stderr : List String
  tallies : Table String Nat
  moments : Table String Instant
  answer : Datum
  aborted : Bool
  deriving Inhabited

/-- The reading of the clock when a script starts. -/
def startOfClock : Instant := Duration.ofParts 1000 0

/-- A thread that is about to run frames. -/
def Thread.fresh (frames : List Frame) (scheduler : Option SchedulerId) : Thread :=
  ⟨none, none, none, scheduler, frames, .done .null, none, none, false⟩

/-- The thread on which scripts start. -/
def mainThread : ThreadId := 0

/-- The world before the first step of a program, whose first block is run under a label. -/
def World.start (program : Program) (timing : Timing) (environment : Environment)
    (settings : Log.Settings) (contextual : Bool) (sink : Option SinkSpec) (label : String) :
    World where
  program := program
  timing := timing
  environment := environment
  clock := startOfClock
  settings := settings
  contextual := contextual
  sink := sink
  fibers := .empty
  saved := .empty
  threads := Table.empty.put mainThread (.fresh [.steps (program.block 0) label] none)
  running := mainThread
  schedulers := .empty
  reactors := .empty
  timerSets := .empty
  objects := []
  semaphores := .empty
  places := .empty
  kernel := .fresh
  names := .empty
  flags := []
  lastId := 0
  trace := []
  stdout := []
  stderr := []
  tallies := .empty
  moments := .empty
  answer := .null
  aborted := false

end Fibers.Script
