import Fibers.Proofs.Kernel.Interest
import Fibers.Proofs.Reactor.Waits
import Fibers.Proofs.Scheduler.View

/-!
A system that has room: stacks can be mapped, and a wait of a set of descriptors can store its
reports. Whether other calls fail is left open. No call that a reactor or a run loop makes takes the
room away.
-/

namespace Fibers.Kernel

/-- Stacks can be mapped, and the reports of a wait of a set can be stored. -/
structure State.Ample (k : State) (id : Nat) : Prop where
  mmap : k.faults.get? .mmap = none
  mprotect : k.faults.get? .mprotect = none
  set : ∃ e, k.epolls.get? id = some e ∧ e.maxEvents * 12 < Script.rowLimit

/-- What has room in a state has room in another one. -/
structure State.Spares (id : Nat) (k k' : State) : Prop where
  calm : ∀ c, k.faults.get? c = none → k'.faults.get? c = none
  set : ∀ e, k.epolls.get? id = some e →
    ∃ e', k'.epolls.get? id = some e' ∧ e'.maxEvents = e.maxEvents

namespace State

variable {k k' k'' : State} {id : Nat}

theorem Ample.spared (h : k.Ample id) (spares : Spares id k k') : k'.Ample id := by
  obtain ⟨e, found, room⟩ := h.set
  obtain ⟨e', found', same⟩ := spares.set e found
  exact ⟨spares.calm _ h.mmap, spares.calm _ h.mprotect, e', found', same ▸ room⟩

namespace Spares

theorem refl (k : State) : Spares id k k := ⟨fun _ h => h, fun e h => ⟨e, h, rfl⟩⟩

theorem trans (h : Spares id k k') (g : Spares id k' k'') : Spares id k k'' := by
  refine ⟨fun c none => g.calm c (h.calm c none), fun e found => ?_⟩
  obtain ⟨e', found', same⟩ := h.set e found
  obtain ⟨e'', found'', same'⟩ := g.set e' found'
  exact ⟨e'', found'', same'.trans same⟩

theorem of_alike (h : k.Alike k') : Spares id k k' := by
  refine ⟨h.calm, fun e found => ?_⟩
  obtain ⟨e', found', alike⟩ := h.epolls id e found
  exact ⟨e', found', alike.maxEvents⟩

theorem of_consumed (h : k.Consumed k') : Spares id k k' := by
  refine ⟨h.calm, fun e found => ?_⟩
  obtain ⟨waker, found'⟩ := h.epolls id e found
  exact ⟨_, found', rfl⟩

theorem of_harvested {w w' : Script.World} {found : List (Int × Event)}
    (h : Script.Harvested id w found w') : Spares id w.kernel w'.kernel := by
  refine ⟨h.calm, fun e there => ?_⟩
  obtain ⟨-, waker, there'⟩ := h.set e there
  exact ⟨_, there', rfl⟩

end Spares

end State

theorem Epoll.enqueueIfReady_maxEvents (e : Epoll) (d : Descriptors) (f : OpenFile)
    (r : Registration) : (e.enqueueIfReady d f r).maxEvents = e.maxEvents := by
  simp only [enqueueIfReady, enqueue]
  split
  · rfl
  · split <;> rfl

/-- A change of what is watched does not change how much is reported at a time. -/
theorem Epoll.tell_maxEvents {e e' : Epoll} {d : Descriptors} {fd : Int} {before after : Event}
    (ok : e.tell d fd before after = .ok e') : e'.maxEvents = e.maxEvents := by
  simp only [tell] at ok
  split at ok
  · simp only [deregister] at ok
    split at ok
    · cases ok
    · split at ok
      · cases ok
      · cases ok
        rfl
  · split at ok
    · simp only [register] at ok
      split at ok
      · cases ok
      · split at ok
        · cases ok
        · cases ok
          rw [enqueueIfReady_maxEvents]
    · simp only [modify] at ok
      split at ok
      · cases ok
      · split at ok
        · cases ok
        · cases ok
          rw [enqueueIfReady_maxEvents]

theorem State.tell_spares (id : Nat) (k : State) (fd : Int) (before after : Event) :
    Spares id k ((Reactor.epollPoller id).tell k fd before after).1 := by
  have used : Spares id k (k.takeFault .epollCtl).1 := .of_alike (k.takeFault_alike .epollCtl)
  rw [tell_eq, control]
  cases taken : k.takeFault .epollCtl with
  | mk s fault =>
    rw [taken] at used
    cases fault with
    | some n => exact used
    | none =>
      dsimp only
      cases found : s.epolls.get? id with
      | none => exact used
      | some e =>
        dsimp only
        cases done : e.tell s.descriptors fd before after with
        | error x => exact used
        | ok e' =>
          refine used.trans ⟨fun _ h => h, fun x there => ?_⟩
          obtain rfl := Option.some.inj (there.symm.trans found)
          exact ⟨e', Table.get?_put_self _ _ _, Epoll.tell_maxEvents done⟩

/-- Where there is room, a stack is mapped or its size is refused. -/
theorem State.Ample.mapStack {k : State} {id : Nat} (h : k.Ample id) (size : Nat) :
    ∃ res, k.mapStack size = (k, res) := by
  have granted : ∀ c, k.faults.get? c = none → k.takeFault c = (k, none) := by
    intro c none
    rw [takeFault, none]
  unfold State.mapStack
  cases stackSize? size with
  | none => exact ⟨_, rfl⟩
  | some usable =>
    dsimp only
    rw [granted .mmap h.mmap]
    dsimp only
    split
    · exact ⟨_, rfl⟩
    · rw [granted .mprotect h.mprotect]
      exact ⟨_, rfl⟩

theorem State.unmapStack_spares (id : Nat) (k : State) : Spares id k k.unmapStack.1 :=
  .of_alike (k.takeFault_alike .munmap)

end Fibers.Kernel
