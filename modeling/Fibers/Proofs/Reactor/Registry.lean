import Fibers.Proofs.Table
import Fibers.Reactor.Table

/-!
The descriptor table as a plain map of handlers. A `Registry` has at most one handler for each
descriptor number and each of the two events, and nothing else. `FdTable.Holds` says that a table
holds the handlers of a registry: the mask of each slot, its two handlers and the number of pending
registrations are what the registry says. Every operation of the table keeps it so, for any poller,
and answers what the registry answers.
-/

namespace Fibers

namespace Event

theorem eq_of_isSingle {e : Event} (h : e.isSingle = true) : e = .readable ∨ e = .writable := by
  obtain ⟨_ | _, _ | _⟩ := e
  · cases h
  · exact .inr rfl
  · exact .inl rfl
  · cases h

/-- The members of a set of events, reading first. -/
def members (e : Event) : List Event := [readable, writable].filter fun x => e.contains x

theorem isSingle_of_mem_members {e x : Event} (h : x ∈ e.members) : x.isSingle = true := by
  have hx := (List.mem_filter.mp h).1
  rcases List.mem_cons.mp hx with rfl | hx
  · rfl
  · obtain rfl := List.mem_singleton.mp hx
    rfl

theorem isEmpty_of_inter {a b : Event} (h : (a.inter b).isEmpty = false) : b.isEmpty = false := by
  obtain ⟨_ | _, _ | _⟩ := a <;> obtain ⟨_ | _, _ | _⟩ := b <;> first | rfl | cases h

end Event

namespace Reactor

variable {η π : Type}

/-- At most one handler for each descriptor number and each of the two events. -/
abbrev Registry (η : Type) := Table (Int × Event) η

namespace Registry

/-- The events of a number that have a handler. -/
def armed (m : Registry η) (fd : Int) : Event :=
  ⟨m.contains (fd, .readable), m.contains (fd, .writable)⟩

/-- What a registry says of a number, in the form in which a table stores it. -/
def slot (m : Registry η) (fd : Int) : Slot η :=
  ⟨m.armed fd, m.get? (fd, .readable), m.get? (fd, .writable)⟩

/-- Takes out the handlers of some events of a number, in their order. -/
def fire (m : Registry η) (fd : Int) : List Event → Registry η × List η
  | [] => (m, [])
  | e :: es =>
    match m.get? (fd, e) with
    | none => fire m fd es
    | some h =>
      let (m, hs) := fire (m.erase (fd, e)) fd es
      (m, h :: hs)

theorem armed_contains (m : Registry η) (fd : Int) {e : Event} (single : e.isSingle = true) :
    (m.armed fd).contains e = m.contains (fd, e) := by
  rcases Event.eq_of_isSingle single with rfl | rfl
  · exact Event.contains_readable _
  · exact Event.contains_writable _

theorem slot_handler (m : Registry η) (fd : Int) {e : Event} (single : e.isSingle = true) :
    (m.slot fd).handler e = m.get? (fd, e) := by
  rcases Event.eq_of_isSingle single with rfl | rfl <;> rfl

theorem slot_put (m : Registry η) (fd j : Int) {e : Event} (single : e.isSingle = true) (h : η) :
    slot (m.put (fd, e) h) j =
      if j = fd then ({ m.slot fd with armed := (m.armed fd).union e }).setHandler e (some h)
      else m.slot j := by
  by_cases hj : j = fd
  · rcases Event.eq_of_isSingle single with rfl | rfl <;>
      simp [slot, armed, Table.get?_put, hj, Slot.setHandler, Event.union, Event.readable,
        Event.writable]
  · simp [slot, armed, Table.get?_put, hj]

theorem slot_erase (m : Registry η) (fd j : Int) {e : Event} (single : e.isSingle = true) :
    slot (m.erase (fd, e)) j =
      if j = fd then ({ m.slot fd with armed := (m.armed fd).without e }).setHandler e none
      else m.slot j := by
  by_cases hj : j = fd
  · rcases Event.eq_of_isSingle single with rfl | rfl <;>
      simp [slot, armed, Table.get?_erase, hj, Slot.setHandler, Event.without, Event.readable,
        Event.writable]
  · simp [slot, armed, Table.get?_erase, hj]

end Registry

/-- Tells the poller that what is armed of a number changes. -/
def Poller.tell (poller : Poller π) (p : π) (fd : Int) (before after : Event) :
    π × Except OsError Unit :=
  if after.isEmpty then poller.deregister p fd
  else if before.isEmpty then poller.register p fd after
  else poller.modify p fd after

namespace FdTable

/-- The table holds the handlers of a registry, and has room for their numbers. -/
structure Holds (t : FdTable η) (m : Registry η) : Prop where
  slot : ∀ fd, t.slot fd = m.slot fd
  known : ∀ fd e, m.contains (fd, e) = true → e.isSingle = true ∧ 0 ≤ fd ∧ fd < t.size
  pending : t.pending = m.size
  distinct : m.Distinct

theorem slot_setSlot (t : FdTable η) (fd j : Int) (s : Slot η) :
    (t.setSlot fd s).slot j = if j = fd then s else t.slot j := by
  unfold slot setSlot
  simp only [Table.get?_put]
  split <;> rfl

theorem holds_fresh {n : Nat} {t : FdTable η} (h : fresh n = .ok t) : t.Holds .empty := by
  unfold fresh at h
  split at h
  · obtain rfl := Except.ok.inj h
    exact ⟨fun _ => rfl, nofun, rfl, Table.distinct_empty⟩
  · cases h

namespace Holds

variable {t : FdTable η} {m : Registry η} {fd : Int} {e : Event} {h : η}

theorem lookup? (holds : t.Holds m) (fd : Int) :
    t.lookup? fd = if 0 ≤ fd ∧ fd < t.size then some (m.slot fd) else none := by
  rw [← holds.slot]
  rfl

/-- Making room changes no handler. -/
theorem reserve (holds : t.Holds m) {t' : FdTable η} {grown : Option Nat}
    (ok : t.reserve fd = .ok (t', grown)) : t'.Holds m ∧ 0 ≤ fd ∧ fd < t'.size := by
  unfold FdTable.reserve at ok
  split at ok
  · cases ok
  · next hneg =>
    split at ok
    · next hroom =>
      obtain ⟨rfl, -⟩ := Prod.mk.inj (Except.ok.inj ok)
      exact ⟨holds, Int.not_lt.mp hneg, hroom⟩
    · next hroom =>
      dsimp only at ok
      split at ok
      · obtain ⟨rfl, -⟩ := Prod.mk.inj (Except.ok.inj ok)
        refine ⟨⟨holds.slot, fun fd' e he => ?_, holds.pending, holds.distinct⟩, ?_, ?_⟩
        · obtain ⟨single, pos, inside⟩ := holds.known fd' e he
          refine ⟨single, pos, ?_⟩
          simp only
          omega
        · omega
        · simp only
          omega
      · cases ok

/-- A handler more. -/
theorem put (holds : t.Holds m) (single : e.isSingle = true) (inside : 0 ≤ fd ∧ fd < t.size)
    (free : m.contains (fd, e) = false) (h : η) :
    ({ t with pending := t.pending + 1 }.setSlot fd
      (({ m.slot fd with armed := (m.armed fd).union e }).setHandler e (some h))).Holds
        (m.put (fd, e) h) where
  slot j := by
    rw [slot_setSlot, Registry.slot_put m fd j single h, ← holds.slot j]
    rfl
  known fd' e' he' := by
    rw [Table.contains_eq_isSome, Table.get?_put] at he'
    split at he'
    · next key =>
      obtain ⟨rfl, rfl⟩ := Prod.mk.inj key
      exact ⟨single, inside⟩
    · exact holds.known fd' e' he'
  pending := by
    change t.pending + 1 = _
    rw [holds.pending, Table.size_put_of_not_contains free]
  distinct := Table.distinct_put holds.distinct _ _

/-- A handler less. -/
theorem erase (holds : t.Holds m) (single : e.isSingle = true) (found : m.get? (fd, e) = some h) :
    ((t.setSlot fd
      (({ m.slot fd with armed := (m.armed fd).without e }).setHandler e none)).settle).Holds
      (m.erase (fd, e)) where
  slot j := by
    change (t.setSlot fd _).slot j = _
    rw [slot_setSlot, Registry.slot_erase m fd j single, ← holds.slot j]
  known fd' e' he' := by
    rw [Table.contains_eq_isSome, Table.get?_erase] at he'
    split at he'
    · cases he'
    · exact holds.known fd' e' he'
  pending := by
    change t.pending - 1 = _
    rw [holds.pending, Table.size_erase_of_get? holds.distinct found]
  distinct := Table.distinct_erase holds.distinct _

end Holds

end FdTable

end Reactor

end Fibers
