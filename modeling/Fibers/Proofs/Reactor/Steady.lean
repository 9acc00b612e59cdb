import Fibers.Proofs.Kernel.Tracking
import Fibers.Proofs.Reactor.Serving

/-!
What a reactor does besides working on its table: it logs, queues tasks, wakes, and lets go of
handles. None of it touches descriptors, or what a set of descriptors watches and has to report; a
set only disappears with the reactor that it belongs to.
-/

namespace Fibers.Script

/-- Descriptors and tables are as they were, and so is every set of descriptors whose reactor did
not end. -/
structure Steady (w w' : World) : Prop where
  descriptors : w'.kernel.descriptors = w.kernel.descriptors
  calm : ∀ c, w.kernel.faults.get? c = none → w'.kernel.faults.get? c = none
  reactor : ∀ r x', w'.reactors.get? r = some x' →
    ∃ x, w.reactors.get? r = some x ∧ x'.table = x.table ∧ x'.epoll = x.epoll
  epoll : ∀ id e, w.kernel.epolls.get? id = some e →
    (∀ r x, w.reactors.get? r = some x → w'.reactors.get? r = none → x.epoll ≠ id) →
    ∃ e', w'.kernel.epolls.get? id = some e' ∧ e.Alike e'

namespace Steady

variable {u v w : World}

theorem of_alike (kernel : v.kernel.Alike w.kernel) (reactors : w.reactors = v.reactors) :
    Steady v w where
  descriptors := kernel.descriptors
  calm := kernel.calm
  reactor _ x' h := ⟨x', reactors ▸ h, rfl, rfl⟩
  epoll id e found _ := kernel.epolls id e found

theorem of_same (kernel : w.kernel = v.kernel) (reactors : w.reactors = v.reactors) : Steady v w :=
  .of_alike (kernel ▸ .refl _) reactors

theorem refl (w : World) : Steady w w := .of_same rfl rfl

theorem trans (h : Steady u v) (g : Steady v w) : Steady u w where
  descriptors := g.descriptors.trans h.descriptors
  calm c none := g.calm c (h.calm c none)
  reactor r x' later := by
    obtain ⟨y, hy, table, epoll⟩ := g.reactor r x' later
    obtain ⟨x, hx, table', epoll'⟩ := h.reactor r y hy
    exact ⟨x, hx, table.trans table', epoll.trans epoll'⟩
  epoll id e found apart := by
    have gone : ∀ r, v.reactors.get? r = none → w.reactors.get? r = none := by
      intro r none
      cases later : w.reactors.get? r with
      | none => rfl
      | some x' =>
        obtain ⟨y, hy, -⟩ := g.reactor r x' later
        rw [none] at hy
        cases hy
    obtain ⟨e', found', alike⟩ := h.epoll id e found fun r x hx none => apart r x hx (gone r none)
    obtain ⟨e'', found'', alike'⟩ := g.epoll id e' found' fun r y hy none => by
      obtain ⟨x, hx, -, epoll⟩ := h.reactor r y hy
      rw [epoll]
      exact apart r x hx none
    exact ⟨e'', found'', alike.trans alike'⟩

theorem quiet (h : Quiet v w) : Steady v w := .of_same h.kernel h.reactors

/-- A change of a reactor that leaves its table and its set alone. -/
theorem modify_reactor (r : ReactorId) (w : World) {f : ReactorRecord → ReactorRecord}
    (same : ∀ x, (f x).table = x.table ∧ (f x).epoll = x.epoll) :
    Steady w { w with reactors := w.reactors.modify r f } where
  descriptors := rfl
  calm _ none := none
  reactor j x' h := by
    rw [Table.get?_modify] at h
    split at h
    · obtain ⟨x, hx, rfl⟩ := Option.map_eq_some_iff.mp h
      exact ⟨x, hx, same x⟩
    · exact ⟨x', h, rfl, rfl⟩
  epoll _ e found _ := ⟨e, found, .refl e⟩

/-- A reactor ends with its set of descriptors. -/
theorem erase_reactor {r : ReactorId} {x : ReactorRecord} (found : w.reactors.get? r = some x) :
    Steady w
      { w with
        reactors := w.reactors.erase r
        kernel := { w.kernel with epolls := w.kernel.epolls.erase x.epoll } } where
  descriptors := rfl
  calm _ none := none
  reactor j x' h := by
    rw [Table.get?_erase] at h
    split at h
    · cases h
    · exact ⟨x', h, rfl, rfl⟩
  epoll id e he apart := by
    have other : x.epoll ≠ id := apart r x found (Table.get?_erase_self _ _)
    refine ⟨e, ?_, .refl e⟩
    change (w.kernel.epolls.erase x.epoll).get? id = some e
    rw [Table.get?_erase, if_neg other.symm, he]

end Steady

/-- However it ends, an effect leaves descriptors and tables as they were. -/
def Act.Steadily {α : Type} (act : Act α) : Prop := ∀ w, Steady w (act.on w).2

namespace Act.Steadily

variable {α β : Type}

theorem pure (a : α) : (Pure.pure a : Act α).Steadily := fun w => .refl w

theorem throw (e : Stop) : (MonadExcept.throw e : Act α).Steadily := fun w => .refl w

theorem bind {x : Act α} {f : α → Act β} (hx : x.Steadily) (hf : ∀ a, (f a).Steadily) :
    (x >>= f).Steadily := by
  intro w
  have first := hx w
  rw [on_bind]
  rcases done : x.on w with ⟨_ | a, v⟩
  all_goals rw [done] at first
  · exact first
  · exact first.trans (hf a v)

theorem get_bind {f : World → Act β} (hf : ∀ w, Steady w ((f w).on w).2) :
    ((MonadState.get : Act World) >>= f).Steadily := fun w => hf w

theorem change {f : World → World} (hf : ∀ w, Steady w (f w)) :
    (modify f : Act Unit).Steadily := hf

/-- An effect that is done or not. -/
theorem ite {c : Prop} [Decidable c] {x y : Act α} (hx : x.Steadily) (hy : y.Steadily) :
    (if c then x else y).Steadily := by
  split
  · exact hx
  · exact hy

/-- An effect that is not always done, before one that is. -/
theorem when {c : Prop} [Decidable c] {x : Act Unit} {f : Unit → Act β} (hx : x.Steadily)
    (hf : (f ()).Steadily) : (if c then x >>= f else f ()).Steadily :=
  ite (bind hx fun _ => hf) hf

end Act.Steadily

theorem log_steadily (l : Log.Level) (text : String) : (log l text).Steadily := by
  intro w
  obtain ⟨w', done, quiet⟩ := log_quiet l text w
  rw [done]
  exact .quiet quiet

theorem kernel_steadily {α : Type} {f : Kernel.State → Kernel.State × α}
    (hf : ∀ k : Kernel.State, k.Alike (f k).1) : (kernel f).Steadily :=
  fun w => .of_alike (hf w.kernel) rfl

theorem violate_steadily {α : Type} (v : Violation) : (violate v : Act α).Steadily :=
  .bind (log_steadily _ _) fun _ => .throw _

theorem updateScheduler_steadily (s : SchedulerId) (f : SchedulerRecord → SchedulerRecord) :
    (updateScheduler s f).Steadily := .change fun _ => .of_same rfl rfl

theorem wakePoller_steadily (epoll : Nat) (failure : String) :
    (wakePoller epoll failure).Steadily := by
  refine .bind (kernel_steadily fun k => k.wake_alike epoll) fun res => ?_
  split
  · exact .pure _
  · exact log_steadily _ _

theorem tickle_steadily (s : SchedulerId) : (tickle s).Steadily := by
  refine .bind (.get_bind fun w => .refl w) fun r => ?_
  split
  · exact updateScheduler_steadily _ _
  · exact updateScheduler_steadily _ _
  · refine .get_bind fun w => ?_
    split
    · exact wakePoller_steadily _ _ w
    · exact .refl w

theorem enqueue_steadily (s : SchedulerId) (added : List (QueueEntry Body)) :
    (enqueue s added).Steadily := by
  refine .bind (.get_bind fun w => .refl w) fun r => ?_
  refine .bind (updateScheduler_steadily _ _) fun _ => ?_
  exact .ite (tickle_steadily s) (.pure _)

theorem unmapStack_steadily : unmapStack.Steadily := by
  refine .bind (kernel_steadily fun k => k.takeFault_alike .munmap) fun e => ?_
  split
  · exact log_steadily _ _
  · exact .pure _

theorem endFiber_steadily (id : FiberId) (r : FiberRecord Body) : (endFiber id r).Steadily := by
  refine .bind (.change fun w => .of_same rfl rfl) fun _ => ?_
  refine .when (log_steadily _ _) (.when unmapStack_steadily ?_)
  exact .bind (.change fun w => .of_same rfl rfl) fun _ => .pure _

theorem endScheduler_steadily (id : SchedulerId) (r : SchedulerRecord) :
    (endScheduler id r).Steadily := by
  refine .bind (.change fun w => .of_same rfl rfl) fun _ => ?_
  exact .when (log_steadily _ _) (.bind (log_steadily _ _) fun _ => .pure _)

theorem endTimers_steadily (id : Nat) : (endTimers id).Steadily :=
  .get_bind fun _ => .of_same rfl rfl

theorem endReactor_steady {w : World} {id : ReactorId} {x : ReactorRecord}
    (found : w.reactors.get? id = some x) : Steady w ((endReactor id x).on w).2 := by
  obtain ⟨v, logged, quiet⟩ : ∃ v, (if 0 < x.table.pending then
      logDebug s!"reactor dropped with {x.table.pending} pending registration(s)" else pure () :
        Act Unit).on w = (.ok (), v) ∧ Quiet w v := by
    split
    · exact log_quiet ..
    · exact ⟨w, rfl, .refl w⟩
  have found' : v.reactors.get? id = some x := by rw [quiet.reactors, found]
  rw [endReactor, Act.on_when logged, Act.on_bind_modify]
  refine ((Steady.quiet quiet).trans (.erase_reactor found')).trans ?_
  exact Act.Steadily.bind (endTimers_steadily _) (fun _ => .pure _) _

theorem releaseOne_steadily (h : Handle) : (releaseOne h).Steadily := by
  refine .get_bind fun w => ?_
  cases h with
  | fiber id =>
    dsimp only
    split
    · exact .refl w
    · split
      · exact .of_same rfl rfl
      · exact endFiber_steadily _ _ w
  | scheduler id =>
    dsimp only
    split
    · exact .refl w
    · split
      · exact .of_same rfl rfl
      · exact endScheduler_steadily _ _ w
  | reactor id =>
    dsimp only
    split
    · exact .refl w
    · next found =>
      split
      · exact .modify_reactor id w fun _ => ⟨rfl, rfl⟩
      · exact endReactor_steady found

theorem releaseUpTo_steadily (n : Nat) (hs : List Handle) : (releaseUpTo n hs).Steadily := by
  induction n generalizing hs with
  | zero => cases hs <;> exact .pure _
  | succ n ih =>
    cases hs with
    | nil => exact .pure _
    | cons h hs => exact .bind (releaseOne_steadily h) fun held => ih (held ++ hs)

theorem release_steadily (hs : List Handle) : (release hs).Steadily :=
  .get_bind fun w => releaseUpTo_steadily _ hs w

theorem retain_steadily (s : SchedulerId) : (retain (.scheduler s)).Steadily :=
  .change fun _ => .of_same rfl rfl

theorem fireAll_steadily (hs : List Handler) : (fireAll hs).Steadily := by
  induction hs with
  | nil => exact .pure _
  | cons h hs ih =>
    refine .bind (.bind (enqueue_steadily _ _) fun _ => release_steadily _) fun _ => ih

theorem violateReleasing_steadily {α : Type} (v : Violation) (held : List Handle) :
    (violateReleasing v held : Act α).Steadily :=
  .bind (log_steadily _ _) fun _ => .bind (release_steadily held) fun _ => .throw _

theorem armed_steadily (fd : Int) (task : Task Body) (target : SchedulerId)
    (res : Reactor.FdTable.Armed) : (armed fd task target res).Steadily := by
  cases res with
  | done => exact .bind (retain_steadily target) fun _ => .pure _
  | refused op interest e =>
    exact .bind (log_steadily _ _) fun _ => .bind (release_steadily _) fun _ => .throw _
  | violated v => exact violateReleasing_steadily v _

theorem disarmed_steadily (what : String) {finish : List Handler → Act Unit}
    (finishes : ∀ hs, (finish hs).Steadily) (res : Reactor.FdTable.Disarmed Handler) :
    (disarmed what finish res).Steadily := by
  cases res with
  | absent => exact .pure _
  | refused e => exact .bind (log_steadily _ _) fun _ => .pure _
  | done hs => exact .bind (finishes hs) fun _ => .pure _
  | violated v => exact violate_steadily v

theorem reported_steadily (fd : Int) (d : Reactor.FdTable.Dispatched Handler) :
    (reported fd d).Steadily := by
  cases d with
  | ignored => exact .pure _
  | refused left e => exact log_steadily _ _
  | fired hs => exact fireAll_steadily hs
  | violated v => exact violate_steadily v

end Fibers.Script
