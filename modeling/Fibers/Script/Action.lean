import Fibers.Config.Scheduler
import Fibers.Event
import Fibers.Kernel.Basic
import Fibers.Log.Level
import Fibers.Script.Datum

/-!
The language of scripts. A program is a row of blocks, a block is a row of steps, and a step
performs an action or breaks off. Actions name the things they work on; a block that an action hands
on is named by its place in the program.
-/

namespace Fibers.Script

/-- A block of the program, or a name that no block has. -/
inductive BlockRef where
  | block (index : Nat)
  | unknown (name : String)
  deriving Inhabited

/-- Where a fiber's body comes from and how the fiber is made. -/
structure SpawnSpec where
  body : BlockRef
  stack : Option Nat
  inScheduler : Option Bool
  /-- Made with the standard stack, for a scheduler. -/
  plain : Bool
  label : Option String
  deriving Inhabited

/-- A task as an action names it. -/
inductive TaskSpec where
  | fiber (name : String)
  | self
  | callback (body : BlockRef) (label : Option String)
  deriving Inhabited

/-- The hooks of a scheduler as an action names them. -/
inductive HooksSpec where
  | parking
  | scripted (idle : List BlockRef) (stopping : Option Bool)
  deriving Inhabited

/-- Actions on fibers. -/
inductive FiberAction where
  | spawn (name : String) (spec : SpawnSpec)
  | resume (name : String)
  | reset (name : String) (body : BlockRef)
  | state (name : String)
  | inspect (name : String)
  | describeBuilder (stack : Option Nat) (inScheduler : Option Bool)
  | describeTask (task : TaskSpec)
  | drop (name : String)
  | keep (name : String)
  | current
  | currentId
  | inFiber
  | total
  | yieldHold
  | yieldReady
  | yieldNow
  | sleep (d : Duration)
  | log (value : Datum)
  | iterate (n : Nat) (body : BlockRef)
  deriving Inhabited

/-- Actions on schedulers and threads. -/
inductive SchedulerAction where
  | new (name : String) (config : SchedulerConfig.Spec) (hooks : Option HooksSpec)
  | drop (name : String)
  | start (name : String)
  | stop (name : String)
  | schedule (name : String) (task : TaskSpec)
  | scheduleOn (name : String) (task : TaskSpec) (worker : Nat)
  | scheduleAll (name : String) (tasks : List TaskSpec)
  | tickle (name : String)
  | tickles (name : String)
  | inspect (name : String)
  | display (name : String)
  | current
  | workerId
  | currentIo
  | setWorker (n : Option Nat)
  | setCurrent (name : Option String)
  | switchTo (name : String) (worker : Option Nat)
  | switcher (name : Option String) (body : BlockRef)
  | onThread (body : BlockRef) (scheduler : Option String)
  | setFlag (name : String)
  | waitFlag (name : String)
  deriving Inhabited

/-- Actions on reactors and descriptors. -/
inductive ReactorAction where
  | new (name : String) (config : SchedulerConfig.Spec) (reactor : Option ReactorConfig.Spec)
  | drop (name : String)
  | inspect (name : String)
  | pending (name : String)
  | add (name : String) (fd : Int) (event : Event) (task : Option TaskSpec)
  | on (name : String) (fd : Int) (event : Event) (body : BlockRef)
  | delete (name : String) (fd : Int) (event : Event)
  | cancel (name : String) (fd : Int) (event : Event)
  | cancelAll (name : String) (fd : Int)
  | pipe (reader writer : Int)
  | socketPair (a b : Int)
  | file (fd : Int)
  | duplicate (fd new : Int)
  | write (fd : Int) (text : String)
  | read (fd : Int) (n : Nat)
  | close (fd : Int)
  | fill (fd : Int)
  | drain (fd : Int)
  | injectWait (n : Int)
  | inject (call : Kernel.Call) (n : Int)
  deriving Inhabited

/-- Actions on timers and the clock. -/
inductive TimerAction where
  | new (name : String)
  | add (timers name : String) (delay : Duration) (body : BlockRef) (recurring : Bool)
  | addGuarded (timers name : String) (delay : Duration) (body : BlockRef) (recurring : Bool)
      (object : String)
  | newObject (name : String)
  | dropObject (name : String)
  | cancel (name : String)
  | refresh (name : String)
  | reset (name : String) (interval : Duration) (fromNow : Bool)
  | armed (name : String)
  | next (timers : String)
  | inspect (timers : String)
  | expire (timers : String)
  | expireHold (timers : String) (body : BlockRef)
  | wakes (timers : String)
  | drop (timers : String)
  | advance (d : Duration)
  | now
  deriving Inhabited

/-- Actions on pollers, counters, semaphores, parking places and stacks. -/
inductive PrimitiveAction where
  | epollNew (name : String) (maxEvents : Nat)
  | epollRegister (name : String) (fd : Int) (mask : Event)
  | epollModify (name : String) (fd : Int) (mask : Event)
  | epollDeregister (name : String) (fd : Int)
  | epollWake (name : String)
  | epollWait (name : String) (timeout : Option Duration)
  | counterNew (name : String)
  | counterSignal (name : String)
  | counterDrain (name : String)
  | counterAdd (name : String) (n : Nat)
  | semaphoreNew (name : String) (count : Option Nat)
  | semaphoreTry (name : String)
  | semaphoreWait (name : String)
  | semaphoreTimeout (name : String) (d : Duration)
  | semaphoreNotify (name : String) (times : Nat)
  | semaphoreAvailable (name : String)
  | parkingNew (name : String)
  | park (name : String) (d : Option Duration)
  | wake (name : String) (times : Nat)
  | parkCount (name : String)
  | stack (size : Nat)
  | describeStack (size : Nat)
  deriving Inhabited

/-- Where diagnostic lines can be sent. -/
inductive SinkSpec where
  | full
  | plain
  | stderr
  deriving DecidableEq, Inhabited, Repr

/-- Actions on the diagnostic log. -/
inductive LogAction where
  | setLevel (l : Log.Level)
  | level
  | enabled (l : Log.Level)
  | setFlush (b : Bool)
  | setSink (s : SinkSpec)
  | resetSink
  | write (l : Log.Level) (text : String)
  | raw (text : String)
  | line (text : String)
  | contract (holds : Bool) (text : String)
  | printConfig (config : SchedulerConfig.Spec)
  deriving Inhabited

/-- A piece of a line printed by a demonstration. -/
inductive Piece where
  | text (s : String)
  /-- The identity of a named fiber. -/
  | fiberId (name : String)
  /-- A tally. -/
  | tally (name : String)
  /-- The text of a named scheduler. -/
  | scheduler (name : String)
  /-- The number of live fibers. -/
  | liveFibers
  /-- The time since a named moment. -/
  | elapsed (moment : String)
  /-- The last answer. -/
  | lastAnswer
  deriving Inhabited

/-- Actions of demonstrations. -/
inductive DemoAction where
  /-- Prints a line. -/
  | print (line : List Piece)
  /-- Writes a line to the log. -/
  | write (l : Log.Level) (line : List Piece)
  /-- Counts one more. -/
  | tally (name : String)
  /-- Gives a name to the present moment. -/
  | mark (moment : String)
  /-- Reads the settings of the log. -/
  | initLog
  deriving Inhabited

/-- An action of any family. -/
inductive Action where
  | fiber (a : FiberAction)
  | scheduler (a : SchedulerAction)
  | reactor (a : ReactorAction)
  | timer (a : TimerAction)
  | primitive (a : PrimitiveAction)
  | log (a : LogAction)
  | demo (a : DemoAction)
  deriving Inhabited

/-- A step of a block. -/
inductive Step where
  /-- Performs an action; a panic of it is caught and reported. -/
  | perform (verb : String) (a : Action)
  /-- Performs an action without catching. -/
  | uncaught (verb : String) (a : Action)
  /-- Performs an action that must not fail, without a report. -/
  | require (a : Action)
  | panic (p : Panic)
  deriving Inhabited

/-- A row of blocks. -/
structure Program where
  blocks : Array (List Step)
  deriving Inhabited

def Program.block (p : Program) (i : Nat) : List Step := p.blocks.getD i []

end Fibers.Script
