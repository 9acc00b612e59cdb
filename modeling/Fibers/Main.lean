import Fibers.Demo.Timers

/-!
The command line: runs one of the two tours in the environment of the process.
-/

namespace Fibers

/-- The variables that the tours read. -/
def tourVariables : List String :=
  ["FIO_THREADS", "FIO_USE_CALLER", "FIO_NAME", "FIO_STACK_SIZE", "FIO_CALLBACK_FIBER_POOL",
   "FIO_PARK_TIMEOUT_MS", "FIO_MAX_WAIT_MS", "FIO_MAX_EVENTS", "FIO_INITIAL_FD_CAPACITY",
   "FIO_LOG_LEVEL", "FIO_FLUSH_EPRINT"]

/-- The variables of the process. -/
def readEnvironment : IO Environment := do
  let vars ← tourVariables.filterMapM fun key => do
    return (← IO.getEnv key).map fun value => (key, value.toUTF8)
  return ⟨vars⟩

/-- Prints what a run printed; answers the exit code. -/
def present (w : Script.World) : IO UInt32 := do
  for line in w.outputLines do
    IO.println line
  for line in w.errorLines do
    IO.eprintln line
  return if w.succeeded then 0 else 101

end Fibers

def main (args : List String) : IO UInt32 := do
  let env ← Fibers.readEnvironment
  match args with
  | ["basic"] => Fibers.present (Fibers.Demo.basic env)
  | ["timers"] => Fibers.present (Fibers.Demo.timers env)
  | _ =>
    IO.eprintln "usage: basic | timers"
    return 2
