import Fibers.Fault
import Fibers.Table

/-!
The descriptor table of a reactor: per descriptor number the events that are armed and a handler for
each. An armed event fires at most once; what stays armed is told to the poller again, or the number
is taken out when nothing stays.

The poller is any state with three operations that may fail. An operation of the table first asks
the poller and changes the table only if the poller agrees. Handlers have any type `η`; a handler
that fires is answered, so that whoever called can run it.
-/

namespace Fibers.Reactor

/-- The operations of a poller with states of type `π`. -/
structure Poller (π : Type) where
  register : π → Int → Event → π × Except OsError Unit
  modify : π → Int → Event → π × Except OsError Unit
  deregister : π → Int → π × Except OsError Unit

/-- What is known of one descriptor number. -/
structure Slot (η : Type) where
  armed : Event
  onRead : Option η
  onWrite : Option η
  deriving DecidableEq, Inhabited, Repr

namespace Slot

variable {η : Type}

def blank : Slot η := ⟨.none, none, none⟩

/-- The handler of a single event. -/
def handler (s : Slot η) (e : Event) : Option η := if e = .readable then s.onRead else s.onWrite

/-- The slot with another handler, or none, for a single event. -/
def setHandler (s : Slot η) (e : Event) (h : Option η) : Slot η :=
  if e = .readable then { s with onRead := h } else { s with onWrite := h }

end Slot

/-- The table: numbers below `size` have a slot, blank unless stored. -/
structure FdTable (η : Type) where
  size : Nat
  slots : Table Int (Slot η)
  /-- Registrations armed and not fired, cancelled or deleted. -/
  pending : Nat
  deriving Inhabited

namespace FdTable

variable {η π : Type}

/-- More slots than this cannot be had. -/
def maxSize : Nat := Nat.pow 2 31

/-- A table with room for `n` numbers. -/
def fresh (n : Nat) : Except SchedFault (FdTable η) :=
  if n ≤ maxSize then .ok ⟨n, .empty, 0⟩ else .error (.tableGrowth n)

/-- The slot of a number that the table has room for. -/
def lookup? (t : FdTable η) (fd : Int) : Option (Slot η) :=
  if 0 ≤ fd ∧ fd < t.size then some ((t.slots.get? fd).getD .blank) else none

/-- The slot of a number. -/
def slot (t : FdTable η) (fd : Int) : Slot η := (t.slots.get? fd).getD .blank

def setSlot (t : FdTable η) (fd : Int) (s : Slot η) : FdTable η :=
  { t with slots := t.slots.put fd s }

/-- Makes room for a number; answers the new size if the table had to grow. -/
def reserve (t : FdTable η) (fd : Int) : Except SchedFault (FdTable η × Option Nat) :=
  if fd < 0 then .error (.invalidFd fd)
  else if fd < t.size then .ok (t, none)
  else
    let size := max (fd.toNat * 3 / 2) (fd.toNat + 1)
    if size ≤ maxSize then .ok ({ t with size := size }, some size)
    else .error (.tableGrowth size)

/-- Tells the poller what stays armed of a number. -/
def rearm (poller : Poller π) (p : π) (fd : Int) (left : Event) : π × Except OsError Unit :=
  if left.isEmpty then poller.deregister p fd else poller.modify p fd left

/-- How arming an event ends. -/
inductive Armed where
  | done
  | refused (op : RegisterOp) (interest : Event) (cause : OsError)
  | violated (v : Violation)
  deriving DecidableEq, Inhabited, Repr

/-- Arms a single event of a number that the table has room for. -/
def arm (poller : Poller π) (p : π) (t : FdTable η) (fd : Int) (e : Event) (h : η) :
    π × FdTable η × Armed :=
  let s := t.slot fd
  if s.armed.contains e then (p, t, .violated (.alreadyWaiting fd e))
  else
    let interest := s.armed.union e
    let (op, p, res) :=
      if s.armed.isEmpty then
        let (p, res) := poller.register p fd interest
        (RegisterOp.add, p, res)
      else
        let (p, res) := poller.modify p fd interest
        (RegisterOp.modify, p, res)
    match res with
    | .error cause => (p, t, .refused op interest cause)
    | .ok () =>
      let t := { t with pending := t.pending + 1 }
      let s := { s with armed := interest }
      match s.handler e with
      | some _ => (p, t.setSlot fd s, .violated (.staleHandler fd e))
      | none => (p, t.setSlot fd (s.setHandler e (some h)), .done)

/-- Takes events out of the armed ones and answers the handler of a single event. -/
def trigger (t : FdTable η) (fd : Int) (e : Event) : FdTable η × Except Violation (Option η) :=
  let s := t.slot fd
  if !s.armed.contains e then (t, .error (.triggerUnarmed fd e s.armed))
  else
    let s := { s with armed := s.armed.without e }
    if e.isSingle then
      (t.setSlot fd (s.setHandler e none), .ok (s.handler e))
    else (t.setSlot fd s, .error (.noEventContext e))

/-- One registration less is pending. -/
def settle (t : FdTable η) : FdTable η := { t with pending := t.pending - 1 }

/-- How disarming events ends. -/
inductive Disarmed (η : Type) where
  /-- They were not armed. -/
  | absent
  | refused (cause : OsError)
  /-- They are disarmed; the handlers, if any, are answered. -/
  | done (handlers : List η)
  | violated (v : Violation)

/-- Disarms events without running a handler. -/
def delete (poller : Poller π) (p : π) (t : FdTable η) (fd : Int) (e : Event) :
    π × FdTable η × Disarmed η :=
  match t.lookup? fd with
  | none => (p, t, .absent)
  | some s =>
    if !s.armed.contains e then (p, t, .absent)
    else
      let left := s.armed.without e
      match rearm poller p fd left with
      | (p, .error cause) => (p, t, .refused cause)
      | (p, .ok ()) =>
        let t := t.settle
        let s := { s with armed := left }
        if e.isSingle then
          (p, t.setSlot fd (s.setHandler e none), .done (s.handler e).toList)
        else (p, t.setSlot fd s, .violated (.noEventContext e))

/-- Disarms events as if they fired. -/
def cancel (poller : Poller π) (p : π) (t : FdTable η) (fd : Int) (e : Event) :
    π × FdTable η × Disarmed η :=
  match t.lookup? fd with
  | none => (p, t, .absent)
  | some s =>
    if !s.armed.contains e then (p, t, .absent)
    else
      match rearm poller p fd (s.armed.without e) with
      | (p, .error cause) => (p, t, .refused cause)
      | (p, .ok ()) =>
        match t.trigger fd e with
        | (t, .error v) => (p, t, .violated v)
        | (t, .ok h) => (p, t.settle, .done h.toList)

/-- Fires each of the events that is armed, reading first. -/
def fireEach (t : FdTable η) (fd : Int) : List Event → FdTable η × Except Violation (List η)
  | [] => (t, .ok [])
  | e :: es =>
    if (t.slot fd).armed.contains e then
      match t.trigger fd e with
      | (t, .error v) => (t, .error v)
      | (t, .ok h) =>
        match fireEach t.settle fd es with
        | (t, .error v) => (t, .error v)
        | (t, .ok hs) => (t, .ok (h.toList ++ hs))
    else fireEach t fd es

/-- Disarms whatever is armed of a number as if it fired. -/
def cancelAll (poller : Poller π) (p : π) (t : FdTable η) (fd : Int) :
    π × FdTable η × Disarmed η :=
  match t.lookup? fd with
  | none => (p, t, .absent)
  | some s =>
    if s.armed.isEmpty then (p, t, .absent)
    else
      match poller.deregister p fd with
      | (p, .error cause) => (p, t, .refused cause)
      | (p, .ok ()) =>
        match t.fireEach fd [.readable, .writable] with
        | (t, .error v) => (p, t, .violated v)
        | (t, .ok hs) => (p, t, .done hs)

/-- How one report of the poller is handled. -/
inductive Dispatched (η : Type) where
  /-- Nothing of it is armed. -/
  | ignored
  | refused (left : Event) (cause : OsError)
  | fired (handlers : List η)
  | violated (v : Violation)

/-- Fires the armed ones among the reported events of a number. -/
def dispatch (poller : Poller π) (p : π) (t : FdTable η) (fd : Int) (reported : Event) :
    π × FdTable η × Dispatched η :=
  match t.lookup? fd with
  | none => (p, t, .ignored)
  | some s =>
    let fired := reported.inter s.armed
    if fired.isEmpty then (p, t, .ignored)
    else
      let left := s.armed.without fired
      match rearm poller p fd left with
      | (p, .error cause) => (p, t, .refused left cause)
      | (p, .ok ()) =>
        let events := [Event.readable, Event.writable].filter fun e => fired.contains e
        match t.fireEach fd events with
        | (t, .error v) => (p, t, .violated v)
        | (t, .ok hs) => (p, t, .fired hs)

/-- The handlers in the table, by number, reading first. -/
def handlers (t : FdTable η) : List η :=
  let slots := t.slots.entries.mergeSort fun a b => decide (a.1 ≤ b.1)
  slots.flatMap fun e => e.2.onRead.toList ++ e.2.onWrite.toList

end FdTable

end Fibers.Reactor
