import Fibers.Script.Perform.Scheduler

/-!
Actions on the diagnostic log.
-/

namespace Fibers.Script

/-- Sends lines to the sink in turn, at no level. -/
def printLines (lines : List String) : Act Unit := lines.forM (sendLine .off)

def performLog : LogAction → Act Signal
  | .setLevel l => do
    modify fun w => { w with settings := w.settings.setLevel l }
    answer .null
  | .level => do
    initLog
    answer (.text (← get).settings.level.describe)
  | .enabled l => do
    if l ≠ .off then initLog
    answer (.flag ((← get).settings.shows l))
  | .setFlush b => do
    modify fun w => { w with settings := w.settings.setFlush b }
    initLog
    answer (.flag (← get).settings.flush)
  | .setSink s => do
    let former := (← get).sink.isSome
    modify fun w => { w with sink := some s }
    answer (.flag former)
  | .resetSink => do
    let former := (← get).sink.isSome
    modify fun w => { w with sink := none }
    answer (.flag former)
  | .write l text => do
    log l text
    answer .null
  | .raw text => do
    sendPiece text
    answer .null
  | .line text => do
    sendLine .off text
    answer .null
  | .contract holds text => do
    if !holds then violate (.custom text)
    answer .ok
  | .printConfig spec => do
    printLines (← configOf spec).listing
    answer .null

end Fibers.Script
