import Fibers.Kernel.Epoll

/-!
The operating system as far as a program of fibers can tell: descriptors, sets of descriptors to
wait for, counters, and stacks. Any call can be made to fail once with a given error; a failed call
has no other effect.
-/

namespace Fibers.Kernel

/-- Calls that can be made to fail. -/
inductive Call where
  | epollCreate
  | eventfd
  | epollCtl
  | spawn
  | mmap
  | mprotect
  | munmap
  | counterWrite
  | counterRead
  deriving DecidableEq, Inhabited, Repr

/-- The state of the operating system. -/
structure State where
  descriptors : Descriptors
  epolls : Table Nat Epoll
  counters : Table Nat Counter
  /-- The last identity given to a set of descriptors or a counter. -/
  lastId : Nat
  /-- Errors with which the next call of a kind fails. -/
  faults : Table Call Int
  /-- Errors with which the next waits fail, one each. -/
  waitFaults : List Int
  /-- The waits so far, last one first: the bound in milliseconds, and the number of reports or the
  negated error. -/
  waits : List (Int × Int)
  deriving Inhabited

namespace State

def fresh : State := ⟨.empty, .empty, .empty, 0, .empty, [], []⟩

/-- Makes the next call of a kind fail. -/
def inject (s : State) (c : Call) (n : Int) : State := { s with faults := s.faults.put c n }

/-- The error a call fails with, if it was made to fail. -/
def takeFault (s : State) (c : Call) : State × Option Int :=
  match s.faults.get? c with
  | some n => ({ s with faults := s.faults.erase c }, some n)
  | none => (s, none)

/-- Tells every set of descriptors about news. -/
def spread (s : State) (news : List News) : State :=
  if news.isEmpty then s
  else
    { s with epolls := ⟨s.epolls.entries.map fun e => (e.1, news.foldl Epoll.notice e.2)⟩ }

/-- Lets every set of descriptors forget a file. -/
def forget (s : State) (file : Nat) : State :=
  { s with epolls := ⟨s.epolls.entries.map fun e => (e.1, e.2.forget file)⟩ }

/-- Closes a number; answers whether it was in use. -/
def close (s : State) (fd : Int) : State × Bool :=
  match s.descriptors.close fd with
  | (_, none) => (s, false)
  | (d, some closed) =>
    let s := { s with descriptors := d }
    let s := match closed.file with
      | some i => s.forget i
      | none => s
    (s.spread closed.news, true)

/-- Makes a number free. -/
def release (s : State) (fd : Int) : State := (s.close fd).1

def pipe (s : State) (reader writer : Int) : State :=
  let s := (s.release reader).release writer
  { s with descriptors := s.descriptors.openPipe reader writer }

def socketPair (s : State) (a b : Int) : State :=
  let s := (s.release a).release b
  { s with descriptors := s.descriptors.openSocket a b }

def nullFile (s : State) (fd : Int) : State :=
  let s := s.release fd
  { s with descriptors := s.descriptors.openAt fd .null }

/-- Gives the file under `fd` the number `new` as well. -/
def duplicate (s : State) (fd new : Int) : State :=
  match s.descriptors.file? fd with
  | none => s
  | some (i, _) =>
    if fd = new then s
    else
      let s := s.release new
      { s with descriptors := s.descriptors.addNumber i new }

def write (s : State) (fd : Int) (bytes : List UInt8) : State × Option Nat :=
  let (d, t) := s.descriptors.write fd bytes
  ({ s with descriptors := d }.spread t.news, t.result)

def read (s : State) (fd : Int) (n : Nat) : State × Option (List UInt8) :=
  let (d, t) := s.descriptors.read fd n
  ({ s with descriptors := d }.spread t.news, t.result)

def fill (s : State) (fd : Int) : State :=
  let (d, news) := s.descriptors.fill fd
  { s with descriptors := d }.spread news

def drain (s : State) (fd : Int) : State :=
  let (d, news) := s.descriptors.drain fd
  { s with descriptors := d }.spread news

/-- Makes a set that reports at most `maxEvents` members at a time. -/
def epollNew (s : State) (maxEvents : Nat) : State × Except OsError Nat :=
  match s.takeFault .epollCreate with
  | (s, some n) => (s, .error (.code n))
  | (s, none) =>
    match s.takeFault .eventfd with
    | (s, some n) => (s, .error (.code n))
    | (s, none) =>
      match s.takeFault .epollCtl with
      | (s, some n) => (s, .error (.code n))
      | (s, none) =>
        let id := s.lastId + 1
        ({ s with lastId := id, epolls := s.epolls.put id (.fresh maxEvents) }, .ok id)

/-- Changes the registrations of a set, unless the call was made to fail. -/
def control (s : State) (id : Nat) (change : Epoll → Descriptors → Except OsError Epoll) :
    State × Except OsError Unit :=
  match s.takeFault .epollCtl with
  | (s, some n) => (s, .error (.code n))
  | (s, none) =>
    match s.epolls.get? id with
    | none => (s, .error .badDescriptor)
    | some e =>
      match change e s.descriptors with
      | .error x => (s, .error x)
      | .ok e => ({ s with epolls := s.epolls.put id e }, .ok ())

def register (s : State) (id : Nat) (fd : Int) (mask : Event) : State × Except OsError Unit :=
  s.control id fun e d => e.register d fd mask

def modify (s : State) (id : Nat) (fd : Int) (mask : Event) : State × Except OsError Unit :=
  s.control id fun e d => e.modify d fd mask

def deregister (s : State) (id : Nat) (fd : Int) : State × Except OsError Unit :=
  s.control id fun e d => e.deregister d fd

/-- Signals a set; that the counter is full is no failure. -/
def wake (s : State) (id : Nat) : State × Except OsError Unit :=
  match s.takeFault .counterWrite with
  | (s, some n) => (s, if n = 11 then .ok () else .error (.code n))
  | (s, none) =>
    ({ s with epolls := s.epolls.modify id Epoll.signal }, .ok ())

/-- Whether reading a counter goes through; an interrupted read is made again. -/
def counterReadable (s : State) : State × Bool :=
  match s.takeFault .counterRead with
  | (s, some n) => (s, n == 4)
  | (s, none) => (s, true)

/-- The most reports the system can make at a time. -/
def maxReports : Nat := (Nat.pow 2 31 - 1) / 12

/-- Whether the system accepts a bound on the number of reports, which it reads as a signed 32-bit
number. -/
def acceptsBound (n : Nat) : Bool :=
  let low := n % Nat.pow 2 32
  0 < low && low ≤ maxReports

/-- Whether a wait that is about to start fails. -/
def waitFault (s : State) (id : Nat) : State × Option Int :=
  match s.waitFaults with
  | n :: rest => ({ s with waitFaults := rest }, some n)
  | [] =>
    match s.epolls.get? id with
    | some e => (s, if acceptsBound e.maxEvents then none else some 22)
    | none => (s, some 9)

/-- What a wait finds without waiting. -/
def harvest (s : State) (id : Nat) : State × List Epoll.Report :=
  match s.epolls.get? id with
  | none => (s, [])
  | some e =>
    let (e, reports) := e.harvest s.descriptors
    ({ s with epolls := s.epolls.put id e }, reports)

/-- Notes a finished wait. -/
def logWait (s : State) (millis result : Int) : State :=
  { s with waits := (millis, result) :: s.waits }

/-- Empties the wake counter of a set. -/
def clearWaker (s : State) (id : Nat) : State :=
  match s.counterReadable with
  | (s, true) => { s with epolls := s.epolls.modify id fun e => { e with waker := .fresh } }
  | (s, false) => s

/-- Handles the reports of a wait: wakes are consumed, the rest is answered. -/
def consume (s : State) (id : Nat) : List Epoll.Report → State × List (Int × Event)
  | [] => (s, [])
  | .woken :: rest => (s.clearWaker id).consume id rest
  | .ready fd event :: rest =>
    let (s, found) := s.consume id rest
    (s, (fd, event) :: found)

def counterNew (s : State) : State × Except OsError Nat :=
  match s.takeFault .eventfd with
  | (s, some n) => (s, .error (.code n))
  | (s, none) =>
    let id := s.lastId + 1
    ({ s with lastId := id, counters := s.counters.put id .fresh }, .ok id)

/-- Adds a signal to a counter; one that does not fit is already pending. -/
def counterSignal (s : State) (id : Nat) : State × Except OsError Unit :=
  match s.takeFault .counterWrite with
  | (s, some n) => (s, if n = 11 then .ok () else .error (.code n))
  | (s, none) =>
    ({ s with counters := s.counters.modify id fun c => (c.add? 1).getD c }, .ok ())

/-- Adds `n` to a counter; answers whether it fits. -/
def counterAdd (s : State) (id n : Nat) : State × Bool :=
  match s.takeFault .counterWrite with
  | (s, some _) => (s, false)
  | (s, none) =>
    match (s.counters.get? id).bind (·.add? n) with
    | some c => ({ s with counters := s.counters.put id c }, true)
    | none => (s, false)

/-- Empties a counter; answers what it held. -/
def counterDrain (s : State) (id : Nat) : State × Nat :=
  match s.counterReadable with
  | (s, true) =>
    let held := match s.counters.get? id with
      | some c => c.value
      | none => 0
    ({ s with counters := s.counters.put id .fresh }, held)
  | (s, false) => (s, 0)

/-- Bytes of a page of memory. -/
def memoryPage : Nat := 4096

/-- Stacks of this size and more cannot be had. -/
def stackLimit : Nat := Nat.pow 2 47

/-- The size of a stack of at least `size` bytes, if the address range can express it. -/
def stackSize? (size : Nat) : Option Nat :=
  let usable := (max size memoryPage + (memoryPage - 1)) / memoryPage * memoryPage
  if usable + memoryPage < Nat.pow 2 64 then some usable else none

/-- Maps a stack with a guard page below it; answers the usable size. -/
def mapStack (s : State) (size : Nat) : State × Except OsError Nat :=
  match stackSize? size with
  | none => (s, .error .noMemory)
  | some usable =>
    match s.takeFault .mmap with
    | (s, some n) => (s, .error (.code n))
    | (s, none) =>
      if stackLimit ≤ usable then (s, .error .noMemory)
      else
        match s.takeFault .mprotect with
        | (s, some n) => ((s.takeFault .munmap).1, .error (.code n))
        | (s, none) => (s, .ok usable)

/-- Unmaps a stack; answers the error if that fails. -/
def unmapStack (s : State) : State × Option OsError :=
  let (s, fault) := s.takeFault .munmap
  (s, fault.map OsError.code)

end State

end Fibers.Kernel
