import Fibers.Proofs.Reactor.Serving

/-!
A reactor is a plain map of handlers. `reactor_refines_registry` says that after any requests, with
any other code between them and whatever the poller answered, the reactor holds the handlers of the
registry, and that each request is answered as the registry answers it, with the same tasks queued
where they belong.
-/

namespace Fibers.Script

open Reactor (Registry)

variable {io : Manager} {start w : World} {m : Registry Handler}

/-- A request to a reactor whose table holds the handlers of a registry. -/
theorem request_served (manages : Manages io w)
    (holds : ∀ x, w.reactors.get? io.reactor = some x → x.table.Holds m) (q : Request)
    (allowed : q.Allowed io w) : Served io w (q.act io) (w.replyTo io m q) := by
  obtain ⟨x, found, _⟩ := id manages.held
  have holds' := holds x found
  cases q with
  | add fd e task => exact add_served manages found holds' fd e task allowed
  | delete fd e => exact delete_served manages found holds' fd allowed
  | cancel fd e => exact cancel_served manages found holds' fd allowed
  | cancelAll fd => exact cancelAll_served manages found holds' fd
  | dispatch reported =>
    obtain ⟨w', dispatched, leads⟩ := report_leads manages holds reported
    have performed : w.perform ((Request.dispatch reported).act io) = (.done .null, w') :=
      perform_of_ok (Act.on_bind_ok dispatched)
    refine ⟨?_, ?_, fun some => absurd rfl some⟩
    · rw [performed]
      rfl
    · rw [performed]
      exact leads

/-- Every request and everything between requests keeps the table to its registry. -/
theorem serves_holds (manages : Manages io start)
    (fresh : ∀ x, start.reactors.get? io.reactor = some x →
      ∃ n, Reactor.FdTable.fresh n = .ok x.table)
    (run : Serves io start m w) :
    Manages io w ∧ ∀ x, w.reactors.get? io.reactor = some x → x.table.Holds m := by
  induction run with
  | start =>
    refine ⟨manages, fun x found => ?_⟩
    obtain ⟨n, made⟩ := fresh x found
    exact Reactor.FdTable.holds_fresh made
  | @elsewhere m w w' _ manages' table ih =>
    refine ⟨manages', fun x' found' => ?_⟩
    obtain ⟨x, found, _⟩ := ih.1.held
    rw [table x x' found found']
    exact ih.2 x found
  | request _ q allowed ih =>
    have leads := (request_served ih.1 ih.2 q allowed).leads
    exact ⟨leads.manages, leads.table⟩

/-- A reactor that starts with an empty table behaves as a plain map of handlers: whatever it was
asked, its table holds the handlers of the registry, and its pending count is their number; and
whatever it is asked next is answered as the registry answers. -/
theorem reactor_refines_registry (manages : Manages io start)
    (fresh : ∀ x, start.reactors.get? io.reactor = some x →
      ∃ n, Reactor.FdTable.fresh n = .ok x.table)
    (run : Serves io start m w) :
    (∃ x, w.reactors.get? io.reactor = some x ∧ x.table.Holds m) ∧
      ∀ q : Request, q.Allowed io w → Served io w (q.act io) (w.replyTo io m q) := by
  obtain ⟨manages', holds⟩ := serves_holds manages fresh run
  obtain ⟨x, found, _⟩ := id manages'.held
  exact ⟨⟨x, found, holds x found⟩, request_served manages' holds⟩

/-- A reactor that watches nothing yet, and a pipe. -/
def watchingWorld : World :=
  { World.start ⟨#[]⟩ .frozen .empty .fresh false none "main" with
    kernel := ((Kernel.State.fresh.epollNew 8).1).pipe 3 4
    schedulers := Table.empty.put 1 ⟨.standard, .reactor 2, .fresh, none, none, [], 0, 1⟩
    reactors := Table.empty.put 2 ⟨.standard, 1, ⟨32, .empty, 0⟩, 3, 2⟩
    names := { Names.empty with reactors := Table.empty.put "io" (1, 2) } }

def watcher : Manager := ⟨"io", 1, 2⟩

theorem watchingWorld_manages : Manages watcher watchingWorld := ⟨rfl, _, rfl, by decide⟩

theorem watchingWorld_fresh : ∀ x, watchingWorld.reactors.get? watcher.reactor = some x →
    ∃ n, Reactor.FdTable.fresh n = .ok x.table := by
  intro x there
  obtain rfl := Option.some.inj there
  exact ⟨32, rfl⟩

theorem watchingWorld_allows (task : Task Body) :
    (Request.add 3 .readable task).Allowed watcher watchingWorld := by
  intro x there n grown
  obtain rfl := Option.some.inj there
  cases grown

/-- A handler is added for the end of the pipe that is read; when it is cancelled, it fires, and
nothing is left. -/
theorem added_handler_fires_on_cancel :
    ∃ m w, Serves watcher watchingWorld m w ∧ m.size = 1 ∧
      (∃ x, w.reactors.get? watcher.reactor = some x ∧ x.table.Holds m) ∧
      Served watcher w ((Request.cancel 3 .readable).act watcher)
        ⟨.empty, .done (.flag true), [⟨1, .callback (.script 0 "reader")⟩], []⟩ := by
  have added : Serves watcher watchingWorld _ _ :=
    Serves.request .start _ (watchingWorld_allows (.callback (.script 0 "reader")))
  obtain ⟨holds, served⟩ :=
    reactor_refines_registry watchingWorld_manages watchingWorld_fresh added
  exact ⟨_, _, added, rfl, holds, served (.cancel 3 .readable) rfl⟩

end Fibers.Script
