import Fibers.Duration
import Fibers.Environment
import Fibers.Fault

/-!
Settings of a scheduler and of a reactor: defaults, values from the environment, checks.
-/

namespace Fibers

/-- Settings of a scheduler. -/
structure SchedulerConfig where
  /-- All workers, the constructing thread included where it is one. -/
  threads : Nat
  /-- Whether the constructing thread is worker 0. -/
  useCaller : Bool
  name : String
  /-- Bytes of a fiber's stack. -/
  stackSize : Nat
  /-- Finished callback fibers that a worker keeps for reuse. -/
  pool : Nat
  /-- The longest single park of an idle worker. -/
  parkTimeout : Duration
  deriving DecidableEq, Inhabited, Repr

namespace SchedulerConfig

def standard : SchedulerConfig where
  threads := 1
  useCaller := true
  name := "fibrio"
  stackSize := 128 * 1024
  pool := 1
  parkTimeout := Duration.ofMillis 100

/-- The standard settings overridden by the environment. -/
def ofEnvironment (e : Environment) : SchedulerConfig where
  threads := e.natural 64 "FIO_THREADS" standard.threads
  useCaller := e.switch "FIO_USE_CALLER" standard.useCaller
  name := e.textOr "FIO_NAME" standard.name
  stackSize := e.natural 64 "FIO_STACK_SIZE" standard.stackSize
  pool := e.natural 64 "FIO_CALLBACK_FIBER_POOL" standard.pool
  parkTimeout := e.millis "FIO_PARK_TIMEOUT_MS" standard.parkTimeout

/-- Threads that a start creates. -/
def spawnedThreads (c : SchedulerConfig) : Except Panic Nat :=
  if c.useCaller then
    if c.threads = 0 then .error Panic.subtractOverflow else .ok (c.threads - 1)
  else .ok c.threads

/-- The first reason to refuse the settings. -/
def fault? (c : SchedulerConfig) : Option ConfigFault :=
  if c.threads = 0 then some .noThreads
  else if maxWorkers < c.threads then some (.tooManyThreads c.threads)
  else if c.stackSize < minStackSize then some (.stackTooSmall c.stackSize)
  else if c.pool = 0 then some .emptyFiberPool
  else none

/-- The settings, a line each. -/
def listing (c : SchedulerConfig) : List String :=
  ["Scheduler configuration:",
   s!"  name:                 {c.name}",
   s!"  threads:              {c.threads}",
   s!"  use_caller:           {c.useCaller}",
   s!"  stack_size:           {c.stackSize}",
   s!"  callback_fiber_pool:  {c.pool}",
   s!"  park_timeout:         {c.parkTimeout.render}"]

def describe (c : SchedulerConfig) : String :=
  s!"SchedulerConfig \x7b threads: {c.threads}, use_caller: {c.useCaller}, name: " ++
    Text.quoted c.name ++
    s!", stack_size: {c.stackSize}, callback_fiber_pool: {c.pool}, park_timeout: " ++
    c.parkTimeout.render ++ " \x7d"

/-- One setting chosen by a caller. -/
inductive Choice where
  | threads (n : Nat)
  | useCaller (b : Bool)
  | name (s : String)
  | stackSize (n : Nat)
  | pool (n : Nat)
  | parkTimeout (d : Duration)
  deriving DecidableEq, Inhabited, Repr

/-- The settings after a choice. -/
def choose (c : SchedulerConfig) : Choice → SchedulerConfig
  | .threads n => { c with threads := n }
  | .useCaller b => { c with useCaller := b }
  | .name s => { c with name := s }
  | .stackSize n => { c with stackSize := n }
  | .pool n => { c with pool := n }
  | .parkTimeout d => { c with parkTimeout := d }

/-- How a caller arrives at settings: from the environment or not, then by choices, the last choice
of a setting winning. -/
structure Spec where
  fromEnvironment : Bool
  environment : Environment
  choices : List Choice
  deriving Inhabited

/-- The settings a caller arrives at in an environment. -/
def ofSpec (base : Environment) (s : Spec) : SchedulerConfig :=
  let start := if s.fromEnvironment then ofEnvironment (s.environment.overlay base) else standard
  s.choices.foldl choose start

end SchedulerConfig

/-- Settings of a reactor. -/
structure ReactorConfig where
  /-- The longest single wait. -/
  maxWait : Duration
  /-- Events fetched by one wait. -/
  maxEvents : Nat
  /-- Size of the descriptor table at the start. -/
  capacity : Nat
  deriving DecidableEq, Inhabited, Repr

namespace ReactorConfig

def standardWaitMillis : Nat := 3000

def standard : ReactorConfig where
  maxWait := Duration.ofMillis standardWaitMillis
  maxEvents := 256
  capacity := 32

/-- The standard settings overridden by the environment. -/
def ofEnvironment (e : Environment) : ReactorConfig where
  maxWait := e.millis "FIO_MAX_WAIT_MS" standard.maxWait
  maxEvents := e.natural 64 "FIO_MAX_EVENTS" standard.maxEvents
  capacity := e.natural 64 "FIO_INITIAL_FD_CAPACITY" standard.capacity

/-- The first reason to refuse the settings. -/
def fault? (c : ReactorConfig) : Option ConfigFault :=
  if c.maxEvents = 0 then some .noEvents
  else if c.maxWait = 0 then some .zeroWait
  else none

/-- One setting chosen by a caller. -/
inductive Choice where
  | maxWait (d : Duration)
  | maxEvents (n : Nat)
  | capacity (n : Nat)
  deriving DecidableEq, Inhabited, Repr

/-- The settings after a choice. -/
def choose (c : ReactorConfig) : Choice → ReactorConfig
  | .maxWait d => { c with maxWait := d }
  | .maxEvents n => { c with maxEvents := n }
  | .capacity n => { c with capacity := n }

/-- How a caller arrives at settings. -/
structure Spec where
  fromEnvironment : Bool
  environment : Environment
  choices : List Choice
  deriving Inhabited

/-- The settings a caller arrives at in an environment. -/
def ofSpec (base : Environment) (s : Spec) : ReactorConfig :=
  let start := if s.fromEnvironment then ofEnvironment (s.environment.overlay base) else standard
  s.choices.foldl choose start

def describe (c : ReactorConfig) : String :=
  "ReactorConfig \x7b max_wait: " ++ c.maxWait.render ++
    s!", max_events: {c.maxEvents}, initial_fd_capacity: {c.capacity}" ++ " \x7d"

end ReactorConfig

end Fibers
