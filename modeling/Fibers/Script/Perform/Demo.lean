import Fibers.Script.Perform.Scheduler

/-!
Actions of demonstrations: printed lines made of pieces, tallies and moments.
-/

namespace Fibers.Script

/-- The text of an answer in a printed line. -/
def Datum.plain : Datum → String
  | .text s => s
  | .flag b => if b then "true" else "false"
  | .number n => toString n
  | d => d.compact

/-- The text of a scheduler; what tells threads apart is not shown. -/
def SchedulerRecord.render (r : SchedulerRecord) : String := r.headline ++ "\n    <tid>"

def Piece.render (w : World) : Piece → String
  | .text s => s
  | .fiberId name => ((w.names.fibers.get? name).getD FiberId.none).render
  | .tally name => toString ((w.tallies.get? name).getD 0)
  | .scheduler name =>
    match (w.names.schedulers.get? name).bind w.schedulers.get? with
    | some r => r.render
    | none => ""
  | .liveFibers => toString w.fibers.live
  | .elapsed moment => (Instant.since w.clock ((w.moments.get? moment).getD w.clock)).render
  | .lastAnswer => w.answer.plain

def renderLine (line : List Piece) : Act String := do
  let w ← get
  return String.join (line.map (Piece.render w))

def performDemo : DemoAction → Act Signal
  | .print line => do
    let text ← renderLine line
    modify fun w => { w with stdout := (text ++ "\n") :: w.stdout }
    answer .null
  | .write l line => do
    log l (← renderLine line)
    answer .null
  | .tally name => do
    modify fun w =>
      { w with tallies := w.tallies.put name ((w.tallies.get? name).getD 0 + 1) }
    answer .null
  | .mark moment => do
    modify fun w => { w with moments := w.moments.put moment w.clock }
    answer .null
  | .initLog => do
    initLog
    answer .null

end Fibers.Script
