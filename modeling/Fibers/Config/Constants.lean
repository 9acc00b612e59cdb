import Fibers.Text.Blank

/-!
The constants a build starts from and the merge of a user's file into them. The file is read line
by line; a line that starts with `pub const ` and names one of the parameters replaces its value by
whatever text stands between the first equals sign and the last semicolon.

Positions are found independently of each other, so a semicolon may come before the equals sign; the
value then has its end before its start, and reading the line breaks off.
-/

namespace Fibers.Config

open Fibers.Text

/-- A parameter with its type and its value in the library. -/
structure Parameter where
  name : String
  type : String
  value : String
  deriving DecidableEq, Inhabited, Repr

/-- The parameters, in the order in which they are written. -/
def parameters : List Parameter :=
  [⟨"NUM_WORKERS", "usize", "1"⟩,
   ⟨"USE_CALLER", "bool", "true"⟩,
   ⟨"STACK_SIZE", "usize", "128 * 1024"⟩,
   ⟨"CALLBACK_FIBER_POOL", "usize", "1"⟩,
   ⟨"PARK_TIMEOUT_MS", "u64", "100"⟩,
   ⟨"MAX_WAIT_MS", "u64", "3000"⟩,
   ⟨"MAX_EVENTS", "usize", "256"⟩,
   ⟨"INITIAL_FD_CAPACITY", "usize", "32"⟩]

/-- How a line that may hold a constant reads. -/
inductive ConstLine where
  /-- No constant. -/
  | nothing
  | constant (name value : List Char)
  /-- The value would end before it starts. -/
  | broken
  deriving DecidableEq, Inhabited, Repr

/-- The words at the start of a constant. -/
def constWords : List Char := "pub const ".toList

/-- The text before the first `c`, if there is one. -/
def before? (c : Char) (cs : List Char) : Option (List Char) :=
  if c ∈ cs then some (cs.takeWhile (· != c)) else none

/-- The number of characters before the last `c`, or of all characters if there is none. -/
def lastIndexOr (c : Char) (cs : List Char) : Nat :=
  match before? c cs.reverse with
  | some after => cs.length - after.length - 1
  | none => cs.length

/-- Reads a name, which ends at the first colon, and a value, which is between the first equals sign
and the last semicolon or the end. -/
def readBody (body : List Char) : ConstLine :=
  match before? ':' body with
  | none => .nothing
  | some name =>
    match before? '=' body with
    | none => .nothing
    | some left =>
      let start := left.length + 1
      let stop := lastIndexOr ';' body
      if stop < start then .broken
      else .constant (trim name) (trim ((body.drop start).take (stop - start)))

/-- Reads a line. -/
def readConst (line : List Char) : ConstLine :=
  if startsWith constWords line then readBody (trim (line.drop constWords.length)) else .nothing

/-- Values of the parameters by name. -/
abbrev Values := List (String × List Char)

namespace Values

/-- The library's values. -/
def defaults : Values := parameters.map fun p => (p.name, p.value.toList)

/-- The value of a parameter. -/
def get (vs : Values) (p : Parameter) : List Char := (vs.lookup p.name).getD p.value.toList

/-- Replaces the value of a name. -/
def put (vs : Values) (name : String) (value : List Char) : Values :=
  (name, value) :: vs.filter (·.1 != name)

end Values

/-- Values after some lines, with the unknown names met on the way. -/
structure Merged where
  values : Values
  unknown : List (List Char)
  deriving DecidableEq, Inhabited, Repr

/-- Merges one line; `none` if reading it breaks off. -/
def mergeLine (m : Merged) (line : List Char) : Option Merged :=
  match readConst (trim line) with
  | .nothing => some m
  | .broken => none
  | .constant name value =>
    match parameters.find? (·.name.toList == name) with
    | some p => some { m with values := m.values.put p.name value }
    | none => some { m with unknown := m.unknown ++ [name] }

/-- Merges all lines of a file. -/
def mergeLines : Merged → List (List Char) → Option Merged
  | m, [] => some m
  | m, l :: ls =>
    match mergeLine m l with
    | some m' => mergeLines m' ls
    | none => none

/-- Merges a file into values. -/
def merge (values : Values) (content : List Char) : Option Merged :=
  mergeLines ⟨values, []⟩ (lines content)

/-- The line that declares a parameter. -/
def declare (vs : Values) (p : Parameter) : List Char :=
  constWords ++ p.name.toList ++ [':', ' '] ++ p.type.toList ++ [' ', '=', ' '] ++ vs.get p ++ [';']

/-- The text of a configuration, which tells whether a user's file was named. -/
def generate (named : Bool) (vs : Values) : List (List Char) :=
  let origin := "// Configuration merged from library defaults"
  ["// Auto-generated by build.rs - do not edit".toList,
   (if named then origin ++ " and user's fio_config.rs" else origin).toList,
   []] ++ parameters.map (declare vs)

/-- The user's file as a build finds it. -/
inductive UserFile where
  /-- No file is named. -/
  | unnamed
  /-- A file is named that cannot be read, for the given reason. -/
  | unreadable (reason : String)
  | content (text : List Char)

/-- What a build writes: the lines it prints and the lines of the configuration. -/
structure Build where
  printed : List String
  config : List String

/-- The last two lines every build prints. -/
def closing : List String :=
  ["cargo:rerun-if-env-changed=FIO_CONFIG_RS", "cargo:rerun-if-changed=build.rs"]

/-- Runs a build, showing the user's file as `shown`; `none` if reading the file breaks off. -/
def build (shown : String) : UserFile → Option Build
  | .unnamed =>
    some { printed := closing, config := (generate false Values.defaults).map String.ofList }
  | .unreadable reason =>
    some
      { printed :=
          ["cargo:rerun-if-changed=" ++ shown,
           "cargo:warning=Failed to read FIO_CONFIG_RS (" ++ shown ++ "): " ++ reason] ++ closing
        config := (generate true Values.defaults).map String.ofList }
  | .content text =>
    (merge Values.defaults text).map fun m =>
      { printed :=
          ["cargo:rerun-if-changed=" ++ shown] ++
          m.unknown.map (fun n => "cargo:warning=Unknown config parameter: " ++ String.ofList n) ++
          ["cargo:warning=Using custom config: " ++ shown] ++ closing
        config := (generate true m.values).map String.ofList }

end Fibers.Config
