import Fibers.Demo.Basic

/-!
A tour of timers and sleeping fibers on a reactor with two workers. The order of its lines and all
times vary from run to run; `steadyLines` is the part that does not.
-/

namespace Fibers.Demo

open Fibers.Script

def timersConfig : SchedulerConfig.Spec :=
  settingsWith [.threads 2, .useCaller false, .name "timers"]

/-- Arms a timer under a name. -/
def arm (name : String) (millis block : Nat) (recurring : Bool) : Step :=
  .require (.timer (.add "timers" name (Duration.ofMillis millis) (.block block) recurring))

/-- The body of a sleeping fiber. -/
def sleeperBody (i : Nat) : List Step :=
  [.require (.fiber (.sleep (Duration.ofMillis (25 * i)))),
   .require (.demo (.tally "woke")),
   say [.text s!"[sleeper {i}] woke at ", .elapsed "start"]]

/-- What the main thread does. -/
def timersMain : List Step :=
  [say [.text "=== fibrio Timer Example ===\n"],
   .require (.demo .initLog),
   .require (.reactor (.new "timers" timersConfig none)),
   .require (.demo (.mark "start")),
   arm "recurring" 50 1 true,
   arm "one-shot" 20 2 false,
   .require (.timer (.newObject "condition")),
   .require (.timer
     (.addGuarded "timers" "condition" (Duration.ofMillis 30) (.block 3) false "condition")),
   .require (.timer (.dropObject "condition")),
   arm "cancelled" 40 4 false,
   .require (.timer (.cancel "cancelled")),
   say [.text "cancelled timer before it fired: ", .lastAnswer]] ++
    (List.range 4).map (fun i =>
      .require (.scheduler (.schedule "timers" (.callback (.block (i + 6)) none)))) ++
    [arm "end" 300 5 false,
     .require (.scheduler (.stop "timers")),
     say [.text "\n", .tally "ticks", .text " tick(s), ", .tally "woke",
       .text " sleeper(s) woke, done in ", .elapsed "start"],
     say [.text "\n=== Example Complete ==="]]

def timersProgram : Program where
  blocks :=
    #[timersMain,
      [.require (.demo (.tally "ticks")),
       note .info [.text "[recurring] tick ", .tally "ticks", .text " at ", .elapsed "start"]],
      [say [.text "[one-shot] fired at ", .elapsed "start"]],
      [say [.text "[condition] should not fire"]],
      [say [.text "[cancelled] should not fire"]],
      [.require (.timer (.cancel "recurring"))],
      sleeperBody 1, sleeperBody 2, sleeperBody 3, sleeperBody 4]

/-- Runs the tour in an environment. -/
def timers (env : Environment) : World :=
  (World.start timersProgram .flowing env .fresh false none "main").run

/-- The text up to and with the first place where `word` stands. -/
def upTo (word : List Char) : List Char → Option (List Char)
  | [] => if word.isEmpty then some [] else none
  | c :: cs =>
    if Text.startsWith word (c :: cs) then some word else (upTo word cs).map (c :: ·)

/-- A line without what varies from run to run. -/
def steady (line : String) : String :=
  let cs := line.toList
  match upTo " tick(s), ".toList cs with
  | some _ =>
    let counted := (cs.dropWhile (· != ' '))
    let known := (upTo "done in ".toList counted).getD counted
    "<n>" ++ String.ofList known ++ "<t>"
  | none =>
    match upTo " at ".toList cs with
    | some known => String.ofList known ++ "<t>"
    | none => line

/-- The lines of an output without what varies from run to run, in order. -/
def steadyLines (lines : List String) : List String :=
  (lines.map steady).mergeSort fun a b => decide (a ≤ b)

end Fibers.Demo
