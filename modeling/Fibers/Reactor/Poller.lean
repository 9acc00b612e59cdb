import Fibers.Config.Scheduler
import Fibers.Kernel.Basic
import Fibers.Reactor.Table

/-!
The poller of a reactor: the operating system's set of descriptors behind the operations that the
descriptor table asks for, and the bound of a single wait.
-/

namespace Fibers.Reactor

/-- The operations of the set of descriptors `epoll`. -/
def epollPoller (epoll : Nat) : Poller Kernel.State where
  register k fd e := k.register epoll fd e
  modify k fd e := k.modify epoll fd e
  deregister k fd := k.deregister epoll fd

/-- A reactor waits until its next timer is due, but no longer than `maxWait`. -/
def waitBound (next : Option Duration) (maxWait : Duration) : Duration :=
  min (next.getD maxWait) maxWait

end Fibers.Reactor
