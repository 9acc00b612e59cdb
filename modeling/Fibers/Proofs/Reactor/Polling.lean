import Fibers.Proofs.Reactor.Sight

/-!
A descriptor table and its poller agree. `poller_agrees_with_table` says that after any requests,
with any deeds that close no armed number, any failures of the poller and any other code between
them, a number is registered exactly if something of it is armed, once, and for what is armed. So no
call of the poller fails because a number is already registered or because it is not.
-/

namespace Fibers.Script

open Reactor (Registry)
open Reactor.FdTable (Moves Operation)
open Kernel (Deed Epoll)

/-- The worlds that requests to a reactor reach. Between the requests programs do what they like
with descriptors of which nothing is armed and move bytes through all of them; other code may do
anything, failing the next calls of the poller included, but change the table, the descriptors or
the registrations of the reactor's set. -/
inductive Polls (io : Manager) (start : World) : World → Prop where
  | start : Polls io start start
  | elsewhere {w w' : World} {s s' : Sight} (run : Polls io start w) (manages : Manages io w')
      (before : w.Shows io.reactor s) (after : w'.Shows io.reactor s')
      (table : ∀ x x', w.reactors.get? io.reactor = some x →
        w'.reactors.get? io.reactor = some x' → x'.table = x.table)
      (descriptors : s'.descriptors = s.descriptors)
      (registered : s'.set.registered = s.set.registered) : Polls io start w'
  | deed {w : World} {s : Sight} (run : Polls io start w) (shows : w.Shows io.reactor s)
      (deed : Deed) (free : ∀ fd ∈ deed.closes s.descriptors, (s.mask fd).isEmpty = true) :
      Polls io start { w with kernel := w.kernel.doing deed }
  | request {w : World} (run : Polls io start w) (q : Request) (allowed : q.Allowed io w) :
      Polls io start (w.perform (q.act io)).2

variable {io : Manager} {start w : World} {s s' : Sight}

/-- A run of requests, deeds and other code is one of requests and other code. -/
theorem Polls.serves (manages : Manages io start) (fresh : ∀ x,
      start.reactors.get? io.reactor = some x → ∃ n, Reactor.FdTable.fresh n = .ok x.table)
    (run : Polls io start w) : ∃ m, Serves io start m w := by
  induction run with
  | start => exact ⟨.empty, .start⟩
  | elsewhere _ manages' _ _ table _ _ ih =>
    obtain ⟨m, served⟩ := ih
    exact ⟨m, .elsewhere served manages' table⟩
  | @deed w _ _ _ deed _ ih =>
    obtain ⟨m, served⟩ := ih
    have manages' := (serves_holds manages fresh served).1
    refine ⟨m, .elsewhere served ⟨manages'.named, manages'.held⟩ fun x x' found found' => ?_⟩
    obtain rfl := Option.some.inj (found.symm.trans found')
    rfl
  | request _ q allowed ih =>
    obtain ⟨m, served⟩ := ih
    exact ⟨_, .request served q allowed⟩

theorem Polls.agrees (manages : Manages io start) (fresh : ∀ x,
      start.reactors.get? io.reactor = some x → ∃ n, Reactor.FdTable.fresh n = .ok x.table)
    (shows : start.Shows io.reactor s) (agrees : s.Agrees) (run : Polls io start w) :
    ∃ s', w.Shows io.reactor s' ∧ s'.Agrees := by
  induction run with
  | start => exact ⟨s, shows, agrees⟩
  | elsewhere _ _ before after table descriptors registered ih =>
    obtain ⟨s₁, seen, agrees⟩ := ih
    obtain rfl := before.unique seen
    obtain ⟨x, found, mask, -⟩ := before.reactor
    obtain ⟨x', found', mask', -⟩ := after.reactor
    have masks : x'.table.mask = x.table.mask := by rw [table x x' found found']
    refine ⟨_, after, ?_, ?_⟩
    · rw [descriptors]
      exact agrees.sound
    · rw [descriptors, ← mask', masks, mask]
      exact agrees.set.congr registered
  | deed _ before deed free ih =>
    obtain ⟨s₁, seen, agrees⟩ := ih
    obtain rfl := before.unique seen
    obtain ⟨set, turns, later⟩ := seen.doing deed
    obtain ⟨sound, set⟩ := turns.agrees free agrees.sound agrees.set
    exact ⟨_, later, sound, set⟩
  | request before q allowed ih =>
    obtain ⟨s₁, seen, agrees⟩ := ih
    obtain ⟨m, served⟩ := before.serves manages fresh
    obtain ⟨manages', holds⟩ := serves_holds manages fresh served
    obtain ⟨s', steps, later⟩ := request_shows manages' holds seen q allowed
    exact ⟨s', later, Sight.Steps.agrees steps agrees⟩

/-- The next call of a kind may be one that fails. -/
theorem Polls.fails (manages : Manages io start) (fresh : ∀ x,
      start.reactors.get? io.reactor = some x → ∃ n, Reactor.FdTable.fresh n = .ok x.table)
    (shows : start.Shows io.reactor s) (agrees : s.Agrees) (run : Polls io start w)
    (c : Kernel.Call) (n : Int) :
    Polls io start { w with kernel := w.kernel.inject c n } := by
  obtain ⟨m, served⟩ := run.serves manages fresh
  have manages' := (serves_holds manages fresh served).1
  obtain ⟨s', seen, -⟩ := run.agrees manages fresh shows agrees
  refine run.elsewhere ⟨manages'.named, manages'.held⟩ seen ⟨seen.descriptors, seen.reactor⟩ ?_ rfl
    rfl
  intro x x' found found'
  obtain rfl := Option.some.inj (found.symm.trans found')
  rfl

/-- Beside a set that agrees with the table, an operation of the table is told that a number is
already registered, or that it is not, only by a failure that was injected. -/
theorem notes_error {x : ReactorRecord} (found : w.reactors.get? io.reactor = some x)
    (shows : w.Shows io.reactor s) (agrees : s.Agrees) {op : Operation Handler} (single : op.Single)
    {c : OsError}
    (noted : .error c ∈ op.notes (Reactor.epollPoller x.epoll) w.kernel x.table) :
    (∃ n, w.kernel.faults.get? .epollCtl = some n ∧ c = .code n) ∨ c = .badDescriptor ∨
      c = .permission := by
  obtain ⟨y, same, mask, set, -⟩ := shows.reactor
  obtain rfl := Option.some.inj (found.symm.trans same)
  have moves := Reactor.FdTable.run_moves (Reactor.epollPoller x.epoll).noting (w.kernel, [])
    x.table single
  simp only [Operation.notes] at noted
  generalize op.run (Reactor.epollPoller x.epoll).noting (w.kernel, []) x.table = after
    at moves noted
  obtain ⟨⟨k, notes⟩, t⟩ := after
  cases moves with
  | stays => cases noted
  | asks fd after some asked =>
    rw [mask] at some
    cases asked with
    | refused told =>
      rw [Reactor.Poller.noting_tell] at told
      cases answer : (Reactor.epollPoller x.epoll).tell w.kernel fd (x.table.mask fd) after with
      | mk k' a =>
        simp only [answer, List.nil_append, Prod.mk.injEq] at told
        obtain ⟨⟨rfl, rfl⟩, rfl⟩ := told
        obtain rfl : c = _ := by simpa using noted
        obtain ⟨-, -, -, injected | refused⟩ := Kernel.State.tell_failed answer
        · exact .inl injected
        · have failed := refused s.set set
          rw [mask, shows.descriptors] at failed
          exact .inr (Epoll.tell_error agrees.set some failed)
    | agreed told =>
      rw [Reactor.Poller.noting_tell] at told
      cases answer : (Reactor.epollPoller x.epoll).tell w.kernel fd (x.table.mask fd) after with
      | mk k' a =>
        simp only [answer, List.nil_append, Prod.mk.injEq] at told
        obtain ⟨⟨rfl, rfl⟩, rfl⟩ := told
        simp at noted

/-- A reactor that starts with an empty table and an empty set of its own: whatever happened, a
number has a registration exactly if something of it is armed, each registration is the only one of
its number, for the file that the number names and for what is armed; and no operation, of those
that follow or of those that a report is made of, fails because a number is already registered or
because it is not, unless just this failure was injected. -/
theorem poller_agrees_with_table (manages : Manages io start)
    (fresh : ∀ x, start.reactors.get? io.reactor = some x →
      ∃ n, Reactor.FdTable.fresh n = .ok x.table)
    (shows : start.Shows io.reactor s) (sound : s.descriptors.Sound)
    (unwatched : s.set.registered = []) (run : Polls io start w) :
    ∃ x e, w.reactors.get? io.reactor = some x ∧ w.kernel.epolls.get? x.epoll = some e ∧
      (∀ fd, (∃ r ∈ e.registered, r.fd = fd) ↔ (x.table.mask fd).isEmpty = false) ∧
      (∀ r ∈ e.registered, r.mask = x.table.mask r.fd ∧ e.of r.fd = [r] ∧
        ∃ f, w.kernel.descriptors.file? r.fd = some (r.file, f)) ∧
      ∀ op : Operation Handler, op.Single → ∀ c,
        .error c ∈ op.notes (Reactor.epollPoller x.epoll) w.kernel x.table →
        c = .fileExists ∨ c = .notFound →
        ∃ n, w.kernel.faults.get? .epollCtl = some n ∧ c = .code n := by
  have agrees := agrees_fresh fresh shows sound unwatched
  obtain ⟨s', seen, agrees'⟩ := run.agrees manages fresh shows agrees
  obtain ⟨x, found, mask, set, -⟩ := seen.reactor
  refine ⟨x, s'.set, found, set, fun fd => ?_, fun r mem => ?_, fun op single c noted which => ?_⟩
  · rw [mask]
    exact agrees'.set.registered_iff fd
  · obtain ⟨-, masked, one, named⟩ := agrees'.set.registration mem
    rw [mask, seen.descriptors]
    exact ⟨masked, one, named⟩
  · obtain injected | rfl | rfl := notes_error found seen agrees' single noted
    · exact injected
    · rcases which with h | h <;> cases h
    · rcases which with h | h <;> cases h

/-- A number stays registered when the poller refuses to let go of it. -/
theorem refused_number_stays_registered :
    ∃ w x e, Polls watcher watchingWorld w ∧ w.reactors.get? watcher.reactor = some x ∧
      w.kernel.epolls.get? x.epoll = some e ∧ x.table.mask 3 = .readable ∧
      ∃ r ∈ e.registered, r.fd = 3 := by
  have added : Polls watcher watchingWorld _ :=
    .request .start (.add 3 .readable (.callback (.script 0 "reader"))) (watchingWorld_allows _)
  have agrees := agrees_fresh watchingWorld_fresh watchingWorld_shows watchingSight_sound rfl
  have failing := added.fails watchingWorld_manages watchingWorld_fresh watchingWorld_shows agrees
    .epollCtl 12
  have refused := failing.request (.delete 3 .readable) rfl
  obtain ⟨x, e, found, set, registered, -⟩ :=
    poller_agrees_with_table watchingWorld_manages watchingWorld_fresh watchingWorld_shows
      watchingSight_sound rfl refused
  have mask : x.table.mask 3 = .readable := by
    obtain rfl := Option.some.inj found
    rfl
  exact ⟨_, x, e, refused, found, set, mask, (registered 3).mpr (by rw [mask]; rfl)⟩

end Fibers.Script
