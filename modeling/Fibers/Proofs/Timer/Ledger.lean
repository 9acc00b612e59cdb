import Fibers.Timer.Basic

/-!
A plain record of armed timers, to compare a set of timers with. It knows of each armed timer when
it was last armed, for how long and under which number, and nothing else: there is no ordered list
of entries, so nothing is left behind when a timer is cancelled or armed anew. The due timers are
found by looking at all of them and sorting.

A set of timers and a record understand the same calls. Each call is made at a reading of the clock
and has one answer.
-/

namespace Fibers.Timers

variable {κ : Type}

/-- A call on a set of timers with callbacks of type `κ`. -/
inductive Call (κ : Type) where
  | add (delay : Duration) (callback : κ) (recurring : Bool)
  | cancel (id : Nat)
  | refresh (id : Nat)
  | reset (id : Nat) (interval : Duration) (fromNow : Bool)
  | isArmed (id : Nat)
  | next
  | expire
  | hasTimer
  | size

/-- The answer to a call. -/
inductive Answer (κ : Type) where
  | timer (id : Nat)
  | flag (b : Bool)
  | wait (d : Option Duration)
  | callbacks (cs : List κ)
  | count (n : Nat)
  /-- The call broke off because a deadline does not exist. -/
  | overflow
  deriving DecidableEq

/-- The answer of an attempt to arm a timer anew. -/
def Rearmed.answer : Rearmed → Answer κ
  | .absent => .flag false
  | .unchanged | .armed _ => .flag true
  | .overflow => .overflow

/-- The answer of a request for the due callbacks. -/
def Expiry.answer : Expiry κ → Answer κ
  | .due cs => .callbacks cs
  | .overflow _ => .overflow

/-- Makes a call. -/
def call (m : Timers κ) (now : Instant) : Call κ → Timers κ × Answer κ
  | .add delay callback recurring =>
    match m.add now delay callback recurring with
    | (m, some (id, _)) => (m, .timer id)
    | (m, none) => (m, .overflow)
  | .cancel id => ((m.cancel id).1, .flag (m.cancel id).2.isSome)
  | .refresh id => ((m.refresh now id).1, (m.refresh now id).2.answer)
  | .reset id interval fromNow =>
    ((m.reset now id interval fromNow).1, (m.reset now id interval fromNow).2.answer)
  | .isArmed id => (m, .flag (m.isArmed id))
  | .next => ((m.next now).1, .wait (m.next now).2)
  | .expire => ((m.expire now).1, (m.expire now).2.answer)
  | .hasTimer => (m, .flag m.hasTimer)
  | .size => (m, .count m.size)

/-- Makes calls one after the other, each at its own reading of the clock. -/
def answers (m : Timers κ) : List (Instant × Call κ) → List (Answer κ)
  | [] => []
  | (now, c) :: cs => (m.call now c).2 :: answers (m.call now c).1 cs

/-- What a record knows of an armed timer. -/
structure Plan (κ : Type) where
  armedAt : Instant
  interval : Duration
  recurring : Bool
  callback : κ
  /-- The number of its last arming. -/
  number : Nat

namespace Plan

def deadline (p : Plan κ) : Instant := p.armedAt + p.interval

/-- The order of expiry: by deadline, then by number. -/
def upTo (p q : Plan κ) : Bool :=
  p.deadline < q.deadline || (p.deadline == q.deadline && decide (p.number ≤ q.number))

end Plan

/-- A record of armed timers. -/
structure Ledger (κ : Type) where
  plans : Table Nat (Plan κ)
  lastId : Nat
  lastNumber : Nat

namespace Ledger

def empty : Ledger κ := ⟨.empty, 0, 0⟩

/-- Records an arming under the next number. -/
def arm (l : Ledger κ) (id : Nat) (p : Plan κ) : Ledger κ :=
  { l with
    plans := l.plans.put id { p with number := l.lastNumber + 1 }
    lastNumber := l.lastNumber + 1 }

def add (l : Ledger κ) (now : Instant) (delay : Duration) (callback : κ) (recurring : Bool) :
    Ledger κ × Answer κ :=
  let id := l.lastId + 1
  let l := { l with lastId := id }
  match now.add? delay with
  | none => (l, .overflow)
  | some _ => (l.arm id ⟨now, delay, recurring, callback, 0⟩, .timer id)

def cancel (l : Ledger κ) (id : Nat) : Ledger κ × Answer κ :=
  ({ l with plans := l.plans.erase id }, .flag (l.plans.contains id))

/-- Records that a timer is armed anew. -/
def rearm (l : Ledger κ) (id : Nat) (p : Plan κ) : Ledger κ × Answer κ :=
  match p.armedAt.add? p.interval with
  | none => (l, .overflow)
  | some _ => (l.arm id p, .flag true)

def refresh (l : Ledger κ) (now : Instant) (id : Nat) : Ledger κ × Answer κ :=
  match l.plans.get? id with
  | none => (l, .flag false)
  | some p => l.rearm id { p with armedAt := now }

/-- A new interval counts from now or from the last arming; the old one counted from the last arming
changes nothing. -/
def reset (l : Ledger κ) (now : Instant) (id : Nat) (interval : Duration) (fromNow : Bool) :
    Ledger κ × Answer κ :=
  match l.plans.get? id with
  | none => (l, .flag false)
  | some p =>
    if interval = p.interval ∧ fromNow = false then (l, .flag true)
    else l.rearm id { p with armedAt := if fromNow then now else p.armedAt, interval := interval }

/-- The time to the least deadline, zero if it has passed. -/
def next (l : Ledger κ) (now : Instant) : Option Duration :=
  (l.plans.entries.map fun e => e.2.deadline).min?.map fun d => d - now

/-- The armed timers whose deadline has come, in the order of expiry. -/
def due (l : Ledger κ) (now : Instant) : List (Nat × Plan κ) :=
  (l.plans.entries.filter fun e => e.2.deadline ≤ now).mergeSort fun a b => a.2.upTo b.2

/-- The record without some timers. -/
def without (l : Ledger κ) (es : List (Nat × Plan κ)) : Ledger κ :=
  { l with plans := es.foldl (fun t e => t.erase e.1) l.plans }

/-- Arms timers anew from now, one after the other. -/
def armAll (l : Ledger κ) (now : Instant) (es : List (Nat × Plan κ)) : Ledger κ :=
  es.foldl (fun l e => l.arm e.1 { e.2 with armedAt := now }) l

/-- Answers the callbacks of the due timers. The one-shot ones among them go; the recurring ones are
armed anew from now. -/
def expire (l : Ledger κ) (now : Instant) : Ledger κ × Answer κ :=
  let due := l.due now
  let recurring := due.filter fun e => e.2.recurring
  if recurring.any fun e => (now.add? e.2.interval).isNone then (l, .overflow)
  else
    ((l.without (due.filter fun e => !e.2.recurring)).armAll now recurring,
      .callbacks (due.map fun e => e.2.callback))

/-- Makes a call. -/
def call (l : Ledger κ) (now : Instant) : Call κ → Ledger κ × Answer κ
  | .add delay callback recurring => l.add now delay callback recurring
  | .cancel id => l.cancel id
  | .refresh id => l.refresh now id
  | .reset id interval fromNow => l.reset now id interval fromNow
  | .isArmed id => (l, .flag (l.plans.contains id))
  | .next => (l, .wait (l.next now))
  | .expire => l.expire now
  | .hasTimer => (l, .flag (!l.plans.isEmpty))
  | .size => (l, .count l.plans.size)

/-- Makes calls one after the other, each at its own reading of the clock. -/
def answers (l : Ledger κ) : List (Instant × Call κ) → List (Answer κ)
  | [] => []
  | (now, c) :: cs => (l.call now c).2 :: answers (l.call now c).1 cs

end Ledger

end Fibers.Timers
