import Fibers.Kernel.Counter
import Fibers.Kernel.Descriptors
import Fibers.OsError

/-!
A set of descriptors to wait for. A registration belongs to an open file under one number. It enters
the ready queue when there is news for its mask, or when it is made or changed while its file is
ready, and leaves the queue when it is reported. A registration that is no longer ready when its
turn comes leaves the queue unreported. The wake counter is one more member of the queue.
-/

namespace Fibers.Kernel

/-- An open file to wait for, under a number. -/
structure Registration where
  file : Nat
  fd : Int
  mask : Event
  deriving DecidableEq, Inhabited, Repr

/-- A member of the ready queue. -/
inductive Member where
  | waker
  | entry (file : Nat) (fd : Int)
  deriving DecidableEq, Inhabited, Repr

structure Epoll where
  /-- The most members that one wait reports. -/
  maxEvents : Nat
  registered : List Registration
  ready : List Member
  waker : Counter
  deriving Inhabited

namespace Epoll

def fresh (maxEvents : Nat) : Epoll := ⟨max maxEvents 1, [], [], .fresh⟩

/-- Enters a member at the end of the ready queue, unless it is there. -/
def enqueue (e : Epoll) (m : Member) : Epoll :=
  if m ∈ e.ready then e else { e with ready := e.ready ++ [m] }

def find? (e : Epoll) (file : Nat) (fd : Int) : Option Registration :=
  e.registered.find? fun r => r.file == file && r.fd == fd

/-- Enters a registration whose file is ready for its mask. -/
def enqueueIfReady (e : Epoll) (d : Descriptors) (f : OpenFile) (r : Registration) : Epoll :=
  if ((d.readiness f).masked r.mask).isEmpty then e else e.enqueue (.entry r.file r.fd)

/-- Tells everyone concerned about news. -/
def notice (e : Epoll) (n : News) : Epoll :=
  e.registered.foldl
    (fun e r =>
      let concerned := match n.events with
        | none => true
        | some events => events.intersects r.mask
      if r.file == n.file && concerned then e.enqueue (.entry r.file r.fd) else e)
    e

/-- Forgets a file that closed. -/
def forget (e : Epoll) (file : Nat) : Epoll :=
  { e with
    registered := e.registered.filter (·.file != file)
    ready := e.ready.filter fun m => match m with
      | .waker => true
      | .entry f _ => f != file }

/-- The open file that a number names, if it can be waited for. -/
def target (d : Descriptors) (fd : Int) : Except OsError (Nat × OpenFile) :=
  match d.file? fd with
  | none => .error .badDescriptor
  | some (i, f) => if Descriptors.pollable f then .ok (i, f) else .error .permission

/-- Registers a number. -/
def register (e : Epoll) (d : Descriptors) (fd : Int) (mask : Event) : Except OsError Epoll :=
  match target d fd with
  | .error x => .error x
  | .ok (i, f) =>
    match e.find? i fd with
    | some _ => .error .fileExists
    | none =>
      let r : Registration := ⟨i, fd, mask⟩
      .ok ({ e with registered := e.registered ++ [r] }.enqueueIfReady d f r)

/-- Changes the mask of a registered number. -/
def modify (e : Epoll) (d : Descriptors) (fd : Int) (mask : Event) : Except OsError Epoll :=
  match target d fd with
  | .error x => .error x
  | .ok (i, f) =>
    match e.find? i fd with
    | none => .error .notFound
    | some _ =>
      let r : Registration := ⟨i, fd, mask⟩
      let registered := e.registered.map fun x => if x.file == i && x.fd == fd then r else x
      .ok ({ e with registered := registered }.enqueueIfReady d f r)

/-- Removes a registered number. -/
def deregister (e : Epoll) (d : Descriptors) (fd : Int) : Except OsError Epoll :=
  match target d fd with
  | .error x => .error x
  | .ok (i, _) =>
    match e.find? i fd with
    | none => .error .notFound
    | some _ =>
      .ok
        { e with
          registered := e.registered.filter fun x => !(x.file == i && x.fd == fd)
          ready := e.ready.filter (· != .entry i fd) }

/-- Something a wait reports. -/
inductive Report where
  | woken
  | ready (fd : Int) (event : Event)
  deriving DecidableEq, Inhabited, Repr

/-- What a member of the ready queue has to report now. -/
def report? (e : Epoll) (d : Descriptors) : Member → Option Report
  | .waker => if e.waker.value = 0 then none else some .woken
  | .entry file fd =>
    match e.find? file fd, d.files.get? file with
    | some r, some f =>
      let now := (d.readiness f).masked r.mask
      if now.isEmpty then none else some (.ready fd now.event)
    | _, _ => none

/-- Takes members from the front of a ready queue until `room` reports are made. -/
def takeReady (e : Epoll) (d : Descriptors) : (room : Nat) → List Member → List Report × List Member
  | 0, ms => ([], ms)
  | _ + 1, [] => ([], [])
  | room + 1, m :: ms =>
    match e.report? d m with
    | none => takeReady e d (room + 1) ms
    | some r =>
      let (rs, rest) := takeReady e d room ms
      (r :: rs, rest)

/-- What a wait finds without waiting. -/
def harvest (e : Epoll) (d : Descriptors) : Epoll × List Report :=
  let (reports, rest) := e.takeReady d e.maxEvents e.ready
  ({ e with ready := rest }, reports)

/-- Adds a signal to the wake counter; one that does not fit is already pending. -/
def signal (e : Epoll) : Epoll :=
  match e.waker.add? 1 with
  | some c => { e with waker := c }.enqueue .waker
  | none => e

end Epoll

/-- The time to wait in whole milliseconds, rounded up and cut off at the largest 32-bit number;
minus one stands for no bound. -/
def timeoutMillis : Option Nat → Int
  | none => -1
  | some nanos => min ((nanos + 999999) / 1000000) (Nat.pow 2 31 - 1)

end Fibers.Kernel
