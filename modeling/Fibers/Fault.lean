import Fibers.Event
import Fibers.FiberState
import Fibers.OsError
import Fibers.Text.Quoted

/-!
What can go wrong. Three families: configurations that are refused, operations that fail and report
it to their caller, and violations of a rule that every caller must keep. The wording of each is
given by one function.
-/

namespace Fibers

/-- The largest number of workers. -/
def maxWorkers : Nat := 256

/-- The smallest stack a scheduler accepts. -/
def minStackSize : Nat := 16 * 1024

/-- Reasons to refuse a configuration. -/
inductive ConfigFault where
  | noThreads
  | tooManyThreads (n : Nat)
  | stackTooSmall (n : Nat)
  | emptyFiberPool
  | noEvents
  | zeroWait
  deriving DecidableEq, Inhabited, Repr

namespace ConfigFault

/-- The name of the cause. -/
def kind : ConfigFault → String
  | noThreads => "NoThreads"
  | tooManyThreads _ => "TooManyThreads"
  | stackTooSmall _ => "StackTooSmall"
  | emptyFiberPool => "EmptyFiberPool"
  | noEvents => "NoEvents"
  | zeroWait => "ZeroWait"

def message : ConfigFault → String
  | noThreads => "thread count must be at least 1"
  | tooManyThreads n => s!"thread count {n} exceeds the maximum of {maxWorkers}"
  | stackTooSmall n => s!"stack size {n} is below the minimum of {minStackSize}"
  | emptyFiberPool => "callback fiber pool capacity must be at least 1"
  | noEvents => "max_events must be at least 1"
  | zeroWait => "max_wait must be non-zero"

/-- The cause with the number it carries. -/
def describe : ConfigFault → String
  | tooManyThreads n => s!"TooManyThreads({n})"
  | stackTooSmall n => s!"StackTooSmall({n})"
  | c => c.kind

/-- The cause of a given name, carrying `n` if it carries a number. -/
def ofKind? (kind : String) (n : Nat) : Option ConfigFault :=
  match kind with
  | "NoThreads" => some noThreads
  | "TooManyThreads" => some (tooManyThreads n)
  | "StackTooSmall" => some (stackTooSmall n)
  | "EmptyFiberPool" => some emptyFiberPool
  | "NoEvents" => some noEvents
  | "ZeroWait" => some zeroWait
  | _ => none

end ConfigFault

/-- Whether a call to the poller was to add a descriptor or to change its interest. -/
inductive RegisterOp where
  | add
  | modify
  deriving DecidableEq, Inhabited, Repr

def RegisterOp.render : RegisterOp → String
  | .add => "ADD"
  | .modify => "MOD"

/-- Failures reported to the caller of an operation. -/
inductive SchedFault where
  | stackAlloc (size : Nat) (cause : OsError)
  | spawn (name : String) (cause : OsError)
  | config (cause : ConfigFault)
  | register (fd : Int) (op : RegisterOp) (cause : OsError)
  | tableGrowth (size : Nat)
  | invalidFd (fd : Int)
  | poller (cause : OsError)
  deriving DecidableEq, Inhabited, Repr

namespace SchedFault

def kind : SchedFault → String
  | stackAlloc .. => "StackAlloc"
  | spawn .. => "Spawn"
  | config _ => "Config"
  | register .. => "Register"
  | tableGrowth _ => "TableGrowth"
  | invalidFd _ => "InvalidFd"
  | poller _ => "Poller"

def message : SchedFault → String
  | stackAlloc size cause => s!"failed to allocate {size} byte fiber stack: {cause.render}"
  | spawn name cause => s!"failed to spawn worker thread {name}: {cause.render}"
  | config cause => s!"invalid configuration: {cause.message}"
  | register fd op cause => s!"epoll_ctl({op.render}) failed for fd {fd}: {cause.render}"
  | tableGrowth size => s!"descriptor table cannot grow to {size} entries"
  | invalidFd fd => s!"invalid file descriptor {fd}"
  | poller cause => s!"poller error: {cause.render}"

/-- The failed system call behind the failure. -/
def osCause? : SchedFault → Option OsError
  | stackAlloc _ cause | spawn _ cause | register _ _ cause | poller cause => some cause
  | config _ | tableGrowth _ | invalidFd _ => none

/-- The number of the failed system call behind the failure. -/
def osNumber? (f : SchedFault) : Option Int := f.osCause?.bind OsError.number?

/-- The text of what caused the failure. -/
def cause? : SchedFault → Option String
  | config cause => some cause.message
  | f => f.osCause?.map OsError.render

end SchedFault

/-- Violations of a rule that callers must keep. -/
inductive Violation where
  | resumeInState (fiber : Nat) (state : FiberState)
  | resumeOutsideScheduler (fiber : Nat)
  | resumeSelf (fiber : Nat)
  | resetInState (fiber : Nat) (state : FiberState)
  | yieldOutsideFiber
  | noResumer (fiber : Nat)
  | schedulerPresent (name : String)
  | workerOutOfRange (worker : Nat) (name : String) (threads : Nat)
  | foreignStop (name : String)
  | stopFromOwnWorker (name : String)
  | switchOutsideFiber
  | eventNotSingle (event : Event)
  | handlerMissing
  | captureInState (fiber : Nat) (state : FiberState)
  | alreadyWaiting (fd : Int) (event : Event)
  | staleHandler (fd : Int) (event : Event)
  | noEventContext (event : Event)
  | triggerUnarmed (fd : Int) (event : Event) (armed : Event)
  | custom (text : String)
  deriving DecidableEq, Inhabited, Repr

def Violation.message : Violation → String
  | resumeInState f s => s!"resume() on fiber {f} in state {s.render}"
  | resumeOutsideScheduler f => s!"fiber {f} must be resumed by a scheduler thread"
  | resumeSelf f => s!"fiber {f} resumed itself"
  | resetInState f s => s!"reset() on fiber {f} in state {s.render}"
  | yieldOutsideFiber => "yield outside of a fiber"
  | noResumer f => s!"fiber {f} has no resumer"
  | schedulerPresent name => s!"thread already runs a scheduler; cannot fold it into {name}"
  | workerOutOfRange w name n => s!"worker {w} out of range for scheduler {name} with {n} worker(s)"
  | foreignStop name => s!"stop() of use_caller scheduler {name} called from a foreign thread"
  | stopFromOwnWorker name => s!"stop() of scheduler {name} called from its own worker"
  | switchOutsideFiber => "switch_to() outside a fiber"
  | eventNotSingle e => s!"add_event() takes READ or WRITE, got {e.render}"
  | handlerMissing => "add_event() without a handler outside a fiber"
  | captureInState f s => s!"add_event() from fiber {f} in state {s.render}"
  | alreadyWaiting fd e => s!"fd {fd} already waits for {e.render}"
  | staleHandler fd e => s!"fd {fd} {e.render} has a stale handler"
  | noEventContext e => s!"no single event context for {e.render}"
  | triggerUnarmed fd e r =>
    s!"fd {fd} triggered for unregistered {e.render} (registered {r.render})"
  | custom text => text

/-- A violation found at a place in a text. -/
structure LocatedViolation where
  message : String
  location : String

namespace LocatedViolation

def render (v : LocatedViolation) : String :=
  s!"contract violation at {v.location}: {v.message}"

def describe (v : LocatedViolation) : String :=
  "ContractViolation \x7b message: " ++ Text.quoted v.message ++ ", location: " ++
    Text.quoted v.location ++ " \x7d"

end LocatedViolation

/-- What a computation is broken off with. -/
inductive Panic where
  /-- A rule was violated. -/
  | violation (v : Violation)
  /-- A text says what happened. -/
  | text (s : String)
  /-- Nothing is said. -/
  | silent
  deriving DecidableEq, Inhabited, Repr

namespace Panic

/-- What a log line says about it. -/
def message : Panic → String
  | violation v => v.message
  | text s => s
  | silent => "non-string panic payload"

def subtractOverflow : Panic := text "attempt to subtract with overflow"

def addOverflow : Panic := text "attempt to add with overflow"

def instantOverflow : Panic := text "overflow when adding duration to instant"

def capacityOverflow : Panic := text "capacity overflow"

end Panic

end Fibers
