import Fibers.Script.World
import Fibers.Text.Blank

/-!
The trace of a run as data: in one row, or in groups by the place where things happened, each group
in its own order or all entries of workers together in the order of their text.
-/

namespace Fibers.Script

def Happening.datum : Happening → Datum
  | .action who verb result => .list [.text who, .text verb, result]
  | .logged kind level text => .list [.text "log", .list [.text kind, .text level, .text text]]

/-- All entries, the first one first. -/
def World.entries (w : World) : List Entry := w.trace.reverse

/-- All entries in one row. -/
def World.history (w : World) : List Datum := w.entries.map fun e => e.event.datum

/-- The name of the group of a place. -/
def placeName : Option Nat → String
  | none => "main"
  | some i => s!"w{i}"

/-- The entries of a place. -/
def World.historyAt (w : World) (place : Option Nat) : List Datum :=
  (w.entries.filter fun e => e.place == place).map fun e => e.event.datum

/-- The places where something happened. -/
def World.eventPlaces (w : World) : List (Option Nat) := (w.entries.map (·.place)).eraseDups

/-- The entries by place. -/
def World.grouped (w : World) : List (String × List Datum) :=
  w.eventPlaces.map fun p => (placeName p, w.historyAt p)

/-- Data in the order of their text. -/
def sortByText (ds : List Datum) : List Datum :=
  let keyed := ds.map fun d => (d.compact, d)
  (keyed.mergeSort fun a b => decide (a.1 ≤ b.1)).map (·.2)

/-- The entries of the main threads, and those of all workers together. -/
def World.groupedInTwo (w : World) : List (String × List Datum) :=
  let ofWorkers := w.entries.filter fun e => e.place.isSome
  let groups :=
    [(placeName none, w.historyAt none),
     ("workers", sortByText (ofWorkers.map fun e => e.event.datum))]
  groups.filter fun g => !g.2.isEmpty

/-- Each wait of a poller, with its bound and its result. -/
def World.waits (w : World) : List Datum :=
  w.kernel.waits.reverse.map fun r => .list [.number r.1, .number r.2]

/-- The lines of the output. -/
def World.outputLines (w : World) : List String :=
  Text.stringLines (String.join w.stdout.reverse)

/-- The lines of the error output. -/
def World.errorLines (w : World) : List String :=
  Text.stringLines (String.join w.stderr.reverse)

/-- Whether the main thread ended without a panic. -/
def World.succeeded (w : World) : Bool :=
  !w.aborted &&
    match w.threads.get? mainThread with
    | some t => t.ended == some none
    | none => false

end Fibers.Script
