import Fibers.Duration
import Fibers.Table

/-!
Timers by deadline. Each arming of a timer gets a number of its own and an entry in a list ordered
by deadline, then by number; an entry is live while its number is its timer's current one.
Cancelling or re-arming leaves the old entry behind as a dead one, which goes when it reaches the
front, or with all others when the dead outnumber the live by a margin.

A deadline may not exist, because it would lie beyond the last moment. The operation then breaks off
and leaves behind what it had done before it asked for the deadline.
-/

namespace Fibers

/-- An entry of the ordered list: a deadline, the number of the arming, the timer. -/
structure Arming where
  deadline : Instant
  seq : Nat
  id : Nat
  deriving DecidableEq, Inhabited, Repr

namespace Arming

/-- Whether `a` comes before `b`: the earlier deadline first, then the earlier arming. -/
def before (a b : Arming) : Bool :=
  a.deadline < b.deadline || (a.deadline == b.deadline && decide (a.seq < b.seq))

/-- Puts an entry in its place. -/
def insert (a : Arming) : List Arming → List Arming
  | [] => [a]
  | b :: rest => if a.before b then a :: b :: rest else b :: insert a rest

end Arming

/-- An armed timer. -/
structure TimerSlot (κ : Type) where
  seq : Nat
  deadline : Instant
  interval : Duration
  recurring : Bool
  callback : κ
  deriving DecidableEq, Inhabited, Repr

/-- A set of timers with callbacks of type `κ`. -/
structure Timers (κ : Type) where
  heap : List Arming
  slots : Table Nat (TimerSlot κ)
  lastId : Nat
  lastSeq : Nat
  /-- A wake for a new front was sent and not yet answered by a question for the next deadline. -/
  tickled : Bool
  deriving DecidableEq, Inhabited, Repr

namespace Timers

variable {κ : Type}

def empty : Timers κ := ⟨[], .empty, 0, 0, false⟩

/-- Dead entries may outnumber live ones by this many. -/
def slack : Nat := 64

/-- Whether an entry is the current one of an armed timer. -/
def live (slots : Table Nat (TimerSlot κ)) (a : Arming) : Bool :=
  match slots.get? a.id with
  | some s => s.seq == a.seq
  | none => false

/-- Adds an entry for a timer under the next number. -/
def arm (m : Timers κ) (id : Nat) (deadline : Instant) : Timers κ :=
  { m with
    lastSeq := m.lastSeq + 1
    heap := Arming.insert ⟨deadline, m.lastSeq + 1, id⟩ m.heap }

/-- Throws out all dead entries once there are too many. -/
def compact (m : Timers κ) : Timers κ :=
  if 2 * m.slots.size + slack < m.heap.length then
    { m with heap := m.heap.filter (live m.slots) }
  else m

/-- Throws out the dead entries at the front. -/
def pruneFront (m : Timers κ) : Timers κ :=
  { m with heap := m.heap.dropWhile fun a => !live m.slots a }

/-- Whether the arming `seq` is the first of all entries. -/
def isFront (m : Timers κ) (seq : Nat) : Bool :=
  match m.heap with
  | a :: _ => a.seq == seq
  | [] => false

/-- Records that a new arming came to the front, and tells whether that asks for a wake. -/
def frontWake (m : Timers κ) (seq : Nat) : Timers κ × Bool :=
  if m.isFront seq && !m.tickled then ({ m with tickled := true }, true) else (m, false)

/-- Arms a new timer; answers its identity and whether a wake is due, or nothing if the deadline
does not exist, in which case the identity is used up all the same. -/
def add (m : Timers κ) (now : Instant) (delay : Duration) (callback : κ) (recurring : Bool) :
    Timers κ × Option (Nat × Bool) :=
  let id := m.lastId + 1
  let m := { m with lastId := id }
  match now.add? delay with
  | none => (m, none)
  | some deadline =>
    let m := m.arm id deadline
    let slot := ⟨m.lastSeq, deadline, delay, recurring, callback⟩
    let (m, wake) := { m with slots := m.slots.put id slot }.frontWake m.lastSeq
    (m, some (id, wake))

/-- Disarms a timer; answers its callback if it was armed. -/
def cancel (m : Timers κ) (id : Nat) : Timers κ × Option κ :=
  match m.slots.get? id with
  | none => (m, none)
  | some slot => ({ m with slots := m.slots.erase id }.compact, some slot.callback)

/-- How an attempt to arm a timer anew ends. -/
inductive Rearmed where
  /-- The timer is not armed. -/
  | absent
  /-- Nothing had to change. -/
  | unchanged
  /-- The deadline does not exist. -/
  | overflow
  /-- The timer is armed anew; `wake` tells whether a wake is due. -/
  | armed (wake : Bool)
  deriving DecidableEq, Inhabited, Repr

/-- Arms the timer of a slot anew. -/
def rearm (m : Timers κ) (id : Nat) (slot : TimerSlot κ) (start : Instant) (interval : Duration) :
    Timers κ × Rearmed :=
  match start.add? interval with
  | none => (m, .overflow)
  | some deadline =>
    let m := m.arm id deadline
    let slot := { slot with seq := m.lastSeq, deadline := deadline, interval := interval }
    let (m, wake) := { m with slots := m.slots.put id slot }.compact.frontWake m.lastSeq
    (m, .armed wake)

/-- Lets a timer's interval start again now. -/
def refresh (m : Timers κ) (now : Instant) (id : Nat) : Timers κ × Rearmed :=
  match m.slots.get? id with
  | none => (m, .absent)
  | some slot => m.rearm id slot now slot.interval

/-- Gives a timer a new interval, which starts now or when the timer was last armed. -/
def reset (m : Timers κ) (now : Instant) (id : Nat) (interval : Duration) (fromNow : Bool) :
    Timers κ × Rearmed :=
  match m.slots.get? id with
  | none => (m, .absent)
  | some slot =>
    if interval = slot.interval ∧ fromNow = false then (m, .unchanged)
    else m.rearm id slot (if fromNow then now else slot.deadline - slot.interval) interval

def isArmed (m : Timers κ) (id : Nat) : Bool := m.slots.contains id

def hasTimer (m : Timers κ) : Bool := !m.slots.isEmpty

/-- The number of armed timers. -/
def size (m : Timers κ) : Nat := m.slots.size

/-- The time until the earliest deadline, zero if it is due. Wakes may be sent again. -/
def next (m : Timers κ) (now : Instant) : Timers κ × Option Duration :=
  let m := { m with tickled := false }.pruneFront
  (m, m.heap.head?.map fun a => Instant.since a.deadline now)

/-- What is left after the due entries were taken from the front, and what was taken. -/
structure Due (κ : Type) where
  heap : List Arming
  slots : Table Nat (TimerSlot κ)
  /-- Callbacks of the due timers in order, each with whether its timer is recurring. -/
  callbacks : List (κ × Bool)
  /-- The recurring ones among the due timers, with their intervals. -/
  recurring : List (Nat × Duration)

/-- Takes the due entries from the front; one-shot timers go. -/
def takeDue (now : Instant) : List Arming → Table Nat (TimerSlot κ) → Due κ
  | [], slots => ⟨[], slots, [], []⟩
  | a :: rest, slots =>
    if now < a.deadline then ⟨a :: rest, slots, [], []⟩
    else
      match slots.get? a.id with
      | none => takeDue now rest slots
      | some slot =>
        if slot.seq ≠ a.seq then takeDue now rest slots
        else if slot.recurring then
          let due := takeDue now rest slots
          { due with
            callbacks := (slot.callback, true) :: due.callbacks
            recurring := (a.id, slot.interval) :: due.recurring }
        else
          let due := takeDue now rest (slots.erase a.id)
          { due with callbacks := (slot.callback, false) :: due.callbacks }

/-- Arms recurring timers anew from now; `false` if a deadline does not exist, which ends it. -/
def rearmDue (now : Instant) : List (Nat × Duration) → Timers κ → Timers κ × Bool
  | [], m => (m, true)
  | (id, interval) :: rest, m =>
    match now.add? interval with
    | none => (m, false)
    | some deadline =>
      let m := m.arm id deadline
      let slots := m.slots.modify id fun s => { s with seq := m.lastSeq, deadline := deadline }
      rearmDue now rest { m with slots := slots }

/-- How a request for the due callbacks ends. -/
inductive Expiry (κ : Type) where
  | due (callbacks : List κ)
  /-- A deadline does not exist; the one-shot callbacks taken so far are lost. -/
  | overflow (lost : List κ)

/-- Takes the callbacks of all due timers in the order of their deadlines. -/
def expire (m : Timers κ) (now : Instant) : Timers κ × Expiry κ :=
  if m.slots.isEmpty then ({ m with heap := [] }, .due [])
  else
    let due := takeDue now m.heap m.slots
    match rearmDue now due.recurring { m with heap := due.heap, slots := due.slots } with
    | (m, true) => (m, .due (due.callbacks.map (·.1)))
    | (m, false) => (m, .overflow ((due.callbacks.filter (!·.2)).map (·.1)))

end Timers

end Fibers
