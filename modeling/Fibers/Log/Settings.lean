import Fibers.Environment
import Fibers.FiberId
import Fibers.Log.Level

/-!
The two settings of the diagnostic log, its threshold and whether each line is flushed, and the
shape of a line. The settings are read from the environment once, the first time anything asks for
one of them, unless a threshold was chosen before.
-/

namespace Fibers.Log

structure Settings where
  initialized : Bool
  level : Level
  flush : Bool
  deriving DecidableEq, Inhabited, Repr

namespace Settings

/-- The settings before anything was read or chosen. -/
def fresh : Settings := ⟨false, .info, false⟩

/-- Reads the environment, unless that is done already. -/
def init (env : Environment) (s : Settings) : Settings :=
  if s.initialized then s
  else
    { initialized := true
      flush :=
        match env.text? "FIO_FLUSH_EPRINT" with
        | some v => Environment.isOn v
        | none => s.flush
      level :=
        match env.text? "FIO_LOG_LEVEL" with
        | some v => (Level.parse? v).getD .info
        | none => s.level }

/-- Chooses a threshold; the environment no longer matters. -/
def setLevel (l : Level) (s : Settings) : Settings := { s with initialized := true, level := l }

def setFlush (b : Bool) (s : Settings) : Settings := { s with flush := b }

/-- Whether a line of level `l` is written; the settings are initialized. -/
def shows (s : Settings) (l : Level) : Bool := l.shownAt s.level

end Settings

/-- Where a line comes from: the worker index and the fiber of the thread that writes it. -/
structure Context where
  worker : Option Nat
  fiber : FiberId
  deriving DecidableEq, Inhabited, Repr

namespace Context

/-- The context of a thread that serves no scheduler and has never used fibers. -/
def bare : Context := ⟨none, FiberId.none⟩

/-- What stands between the mark and the text of a line. -/
def render (c : Context) : String :=
  match c.worker with
  | some w => s!"[w{w} f{c.fiber.render}] "
  | none => if c.fiber.isSome then s!"[f{c.fiber.render}] " else ""

end Context

/-- A line of level `l`. -/
def line (l : Level) (c : Context) (text : String) : String :=
  l.mark ++ " " ++ c.render ++ text

end Fibers.Log
