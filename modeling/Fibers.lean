import Fibers.Config.Constants
import Fibers.Main
import Fibers.Proofs.Table
import Fibers.Proofs.Timer.Agree
import Fibers.Proofs.Timer.Expiry
import Fibers.Proofs.Config.RoundTrip
import Fibers.Proofs.Effect
import Fibers.Proofs.Fiber.Operations
import Fibers.Proofs.Fiber.Runs
import Fibers.Proofs.Reactor.Operations
import Fibers.Proofs.Reactor.Queueing
import Fibers.Proofs.Reactor.Refinement
import Fibers.Proofs.Reactor.Atomic
import Fibers.Proofs.Scheduler.Cells
import Fibers.Proofs.Scheduler.Reference
import Fibers.Proofs.Scheduler.Scripts
import Fibers.Proofs.Timer.Refinement
import Fibers.Proofs.Scheduler.Owner
import Fibers.Proofs.Scheduler.Parking
import Fibers.Proofs.Scheduler.Pins
import Fibers.Proofs.Scheduler.Recycling
import Fibers.Proofs.Scheduler.Reentry
import Fibers.Proofs.Timer.Notifying
import Fibers.Proofs.Reactor.Polling
import Fibers.Proofs.Reactor.Watching
import Fibers.Proofs.Manager.Stop
import Fibers.Proofs.Sleep.Exact
import Fibers.Proofs.Reactor.Removing
import Fibers.Proofs.Reactor.Timeouts
import Fibers.Proofs.Scheduler.Arrivals
import Fibers.Proofs.Scheduler.Picks
import Fibers.Proofs.Scheduler.Regular
import Fibers.Proofs.Scheduler.RegularRuns
import Fibers.Proofs.Scheduler.Strays
import Fibers.Proofs.Timer.Overflow
import Fibers.Proofs.Timer.Recurring
import Fibers.Proofs.Timer.DeadEntries
import Fibers.Proofs.Config.Slicing
import Fibers.Proofs.Log.Choices
