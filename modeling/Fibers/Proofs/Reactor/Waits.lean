import Fibers.Proofs.Kernel.Alert
import Fibers.Proofs.Reactor.Sight
import Fibers.Script.Machine

/-!
Waits of a poller. A wait that ends with a report has taken what its set of descriptors had to
report, and nothing else of the world but the clock and the wake counter has changed.
-/

namespace Fibers.Kernel

/-- The reports of a wait were handled: only wake counters change. -/
structure State.Consumed (k k' : State) : Prop where
  descriptors : k'.descriptors = k.descriptors
  calm : ∀ c, k.faults.get? c = none → k'.faults.get? c = none
  epolls : ∀ id e, k.epolls.get? id = some e →
    ∃ waker, k'.epolls.get? id = some { e with waker := waker }

namespace State

theorem Consumed.refl (k : State) : k.Consumed k := ⟨rfl, fun _ h => h, fun _ e h => ⟨e.waker, h⟩⟩

theorem Consumed.trans {k k' k'' : State} (h : k.Consumed k') (g : k'.Consumed k'') :
    k.Consumed k'' := by
  refine ⟨g.descriptors.trans h.descriptors, fun c none => g.calm c (h.calm c none), ?_⟩
  intro id e found
  obtain ⟨_, found'⟩ := h.epolls id e found
  obtain ⟨waker, found''⟩ := g.epolls id _ found'
  exact ⟨waker, found''⟩

theorem clearWaker_consumed (k : State) (id : Nat) : k.Consumed (k.clearWaker id) := by
  have used : k.Consumed (k.takeFault .counterRead).1 := by
    simp only [takeFault]
    split
    · refine ⟨rfl, fun c none => ?_, fun _ e h => ⟨e.waker, h⟩⟩
      rw [Table.get?_erase, none, ite_self]
    · exact .refl k
  simp only [clearWaker, counterReadable]
  cases taken : k.takeFault .counterRead with
  | mk s fault =>
    rw [taken] at used
    have cleared : s.Consumed
        { s with epolls := s.epolls.modify id fun e => { e with waker := .fresh } } := by
      refine ⟨rfl, fun _ h => h, fun j e found => ?_⟩
      simp only [Table.get?_modify]
      split
      · next same =>
        subst same
        exact ⟨.fresh, by rw [found]; rfl⟩
      · exact ⟨e.waker, found⟩
    cases fault with
    | none => exact used.trans cleared
    | some n =>
      dsimp only
      split
      · next s' eq =>
        obtain ⟨rfl, -⟩ := Prod.mk.inj eq
        exact used.trans cleared
      · next s' eq =>
        obtain ⟨rfl, -⟩ := Prod.mk.inj eq
        exact used

theorem consume_eq (k : State) (id : Nat) (reports : List Epoll.Report) :
    (k.consume id reports).2 = reports.filterMap Epoll.Report.found? ∧
      k.Consumed (k.consume id reports).1 := by
  induction reports generalizing k with
  | nil => exact ⟨rfl, .refl k⟩
  | cons r reports ih =>
    cases r with
    | woken =>
      obtain ⟨found, consumed⟩ := ih (k.clearWaker id)
      exact ⟨found, (clearWaker_consumed k id).trans consumed⟩
    | ready fd event =>
      obtain ⟨found, consumed⟩ := ih k
      simp only [consume]
      exact ⟨by simp [found, Epoll.Report.found?], consumed⟩

end State

end Fibers.Kernel

namespace Fibers.Script

open Kernel (Epoll)

/-- What a wait left: the set of descriptors has reported what it had to report. -/
structure Harvested (id : Nat) (w : World) (found : List (Int × Event)) (w' : World) : Prop where
  world : ∃ clock kernel, w' = { w with clock := clock, kernel := kernel }
  descriptors : w'.kernel.descriptors = w.kernel.descriptors
  calm : ∀ c, w.kernel.faults.get? c = none → w'.kernel.faults.get? c = none
  set : ∀ e, w.kernel.epolls.get? id = some e → found = e.found w.kernel.descriptors ∧
    ∃ waker, w'.kernel.epolls.get? id =
      some { (e.harvest w.kernel.descriptors).1 with waker := waker }

/-- A wait of a set of descriptors ended with a report, at once or when a thread had waited. -/
inductive Waited (id : Nat) (w : World) (found : List (Int × Event)) (w' : World) : Prop where
  | now (timeout : Option Duration)
      (ended : (poll id timeout).on w = (.ok (.polled (.ok found)), w'))
  | later (millis : Int) (until? : Option Instant)
      (ended : (tryWait (.epoll id millis until?)).on w = (.ok (some (.polled (.ok found))), w'))

theorem Harvested.after {id : Nat} {w v w' : World} {found : List (Int × Event)}
    (h : Harvested id w found v) (clock : Instant) (kernel : Kernel.State)
    (world : w' = { v with clock := clock, kernel := kernel })
    (consumed : v.kernel.Consumed kernel) : Harvested id w found w' := by
  obtain ⟨c, k, rfl⟩ := h.world
  subst world
  refine ⟨⟨clock, kernel, rfl⟩, consumed.descriptors.trans h.descriptors,
    fun c none => consumed.calm c (h.calm c none), fun e there => ?_⟩
  obtain ⟨eq, _, set⟩ := h.set e there
  obtain ⟨waker, set'⟩ := consumed.epolls id _ set
  exact ⟨eq, waker, set'⟩

theorem logWait_consumed (k : Kernel.State) (millis result : Int) :
    k.Consumed (k.logWait millis result) :=
  ⟨rfl, fun _ h => h, fun _ e h => ⟨e.waker, h⟩⟩

theorem harvest_harvested (id : Nat) (w : World) :
    Harvested id w ((w.kernel.harvest id).2.filterMap Epoll.Report.found?)
      { w with kernel := (w.kernel.harvest id).1 } := by
  simp only [Kernel.State.harvest]
  cases there : w.kernel.epolls.get? id with
  | none =>
    refine ⟨⟨w.clock, w.kernel, rfl⟩, rfl, fun _ h => h, fun e found => ?_⟩
    rw [there] at found
    cases found
  | some e =>
    refine ⟨⟨w.clock, _, rfl⟩, rfl, fun _ h => h, fun e' found => ?_⟩
    rw [there] at found
    obtain rfl := Option.some.inj found
    exact ⟨rfl, e.waker, Table.get?_put_self ..⟩

/-- Looking without waiting. -/
theorem pollNow_on (id : Nat) (millis : Int) (w : World) : ∃ found w', Harvested id w found w' ∧
    ((pollNow id millis).on w = (.ok none, w') ∧ found = [] ∨
      (pollNow id millis).on w = (.ok (some found), w')) := by
  have taken := harvest_harvested id w
  cases harvest : w.kernel.harvest id with
  | mk k reports =>
    rw [harvest] at taken
    have first : (kernel (·.harvest id)).on w = (.ok reports, { w with kernel := k }) := by
      rw [kernel_on, harvest]
    cases reports with
    | nil =>
      refine ⟨[], _, taken, .inl ⟨?_, rfl⟩⟩
      rw [pollNow, Act.on_bind_ok first]
      rfl
    | cons r reports =>
      let k' := k.logWait millis (r :: reports).length
      obtain ⟨eq, consumed⟩ := k'.consume_eq id (r :: reports)
      refine ⟨(r :: reports).filterMap Epoll.Report.found?,
        { w with kernel := (k'.consume id (r :: reports)).1 }, ?_, .inr ?_⟩
      · exact taken.after w.clock _ rfl ((logWait_consumed k _ _).trans consumed)
      · rw [pollNow, Act.on_bind_ok first, ← eq]
        rfl

theorem allocate_ok {count size : Nat} {w w' : World} {a : Unit}
    (h : (allocate count size).on w = (.ok a, w')) : w' = w := by
  unfold allocate at h
  split at h
  · cases h
  · split at h
    · cases h
    · exact (Prod.mk.inj h).2.symm

/-- A wait that does not fail starts with the system as it is. -/
theorem waitFault_ok {id : Nat} {w w' : World}
    (h : (kernel (·.waitFault id)).on w = (.ok none, w')) : w' = w := by
  rw [kernel_on] at h
  simp only [Kernel.State.waitFault] at h
  split at h
  · cases h
  · split at h
    · split at h
      · exact (Prod.mk.inj h).2.symm
      · cases h
    · cases h

/-- A wait that ends with a report has harvested it. -/
theorem Waited.harvested {id : Nat} {w w' : World} {found : List (Int × Event)}
    (h : Waited id w found w') : Harvested id w found w' := by
  cases h with
  | now timeout ended =>
    rw [poll, Act.on_bind_get] at ended
    obtain ⟨_, v, allocated, starts⟩ := Act.of_bind_ok ended
    obtain rfl := allocate_ok allocated
    obtain ⟨fault, v', started, goes⟩ := Act.of_bind_ok starts
    cases fault with
    | some n => cases goes
    | none =>
      obtain rfl := waitFault_ok started
      obtain ⟨now, u, harvested, ⟨done, rfl⟩ | done⟩ :=
        pollNow_on id (Kernel.timeoutMillis timeout) v'
      · dsimp only at goes
        rw [Act.on_bind_ok done] at goes
        dsimp only at goes
        rw [Act.on_bind_get] at goes
        split at goes
        · cases goes
        · cases goes
          exact harvested.after _ _ rfl (logWait_consumed u.kernel _ 0)
      · dsimp only at goes
        rw [Act.on_bind_ok done] at goes
        cases goes
        exact harvested
  | later millis until? ended =>
    obtain ⟨now, v, harvested, ⟨done, rfl⟩ | done⟩ := pollNow_on id millis w
    · rw [tryWait, Act.on_bind_ok done] at ended
      dsimp only at ended
      rw [Act.on_bind_get] at ended
      split at ended
      · cases ended
        exact harvested.after v.clock _ rfl (logWait_consumed v.kernel millis 0)
      · cases ended
    · rw [tryWait, Act.on_bind_ok done] at ended
      cases ended
      exact harvested

end Fibers.Script
