/-!
Failures of calls to the operating system: a numbered one, whose text is the system's name for the
number, or one that only has a text.
-/

namespace Fibers

inductive OsError where
  | code (n : Int)
  | other (text : String)
  deriving DecidableEq, Inhabited, Repr

namespace OsError

/-- The system's name for an error number. -/
def codeName (n : Int) : String :=
  match n with
  | 1 => "Operation not permitted"
  | 2 => "No such file or directory"
  | 4 => "Interrupted system call"
  | 5 => "Input/output error"
  | 9 => "Bad file descriptor"
  | 11 => "Resource temporarily unavailable"
  | 12 => "Cannot allocate memory"
  | 13 => "Permission denied"
  | 17 => "File exists"
  | 22 => "Invalid argument"
  | 23 => "Too many open files in system"
  | 24 => "Too many open files"
  | 28 => "No space left on device"
  | 32 => "Broken pipe"
  | n => s!"Unknown error {n}"

def render : OsError → String
  | code n => s!"{codeName n} (os error {n})"
  | other text => text

/-- The error number, if there is one. -/
def number? : OsError → Option Int
  | code n => some n
  | other _ => none

def permission : OsError := code 1
def notFound : OsError := code 2
def interrupted : OsError := code 4
def badDescriptor : OsError := code 9
def noMemory : OsError := code 12
def fileExists : OsError := code 17

end OsError

end Fibers
