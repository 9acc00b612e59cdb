import Fibers.Proofs.Effect
import Fibers.Proofs.Table

/-!
Letting go of handles, waking and queueing. A release may end fibers, schedulers and reactors, each
of which lets go of more. What can be said of all of it is said by `Remains`: what is alive
afterwards was alive before and is as it was, but for the entries that were appended to its queue.
A reactor that somebody holds, besides the schedulers that idle in it, stays alive.
-/

namespace Fibers.Script

/-- Entries for the queues of schedulers. -/
abbrev Added := SchedulerId → List (QueueEntry Body)

def Added.none : Added := fun _ => []

/-- What is alive in `w'` was alive in `w`, and is as it was there, but for the entries appended to
the queues and for who holds it and how it is woken. -/
structure Remains (w w' : World) (added : Added) : Prop where
  scheduler : ∀ s x', w'.schedulers.get? s = some x' →
    ∃ x, w.schedulers.get? s = some x ∧ x'.shared.queue = x.shared.queue ++ added s
  reactor : ∀ r x', w'.reactors.get? r = some x' →
    ∃ x, w.reactors.get? r = some x ∧ x'.table = x.table ∧ x'.epoll = x.epoll
  names : w'.names = w.names

/-- The handles of a reactor that schedulers hold. -/
def World.hooked (w : World) (r : ReactorId) : Nat :=
  w.schedulers.weight fun x => x.hooks.handles.count (.reactor r)

/-- A reactor has more handles than schedulers hold, and `n` besides. -/
def World.HeldBesides (w : World) (n : Nat) (r : ReactorId) : Prop :=
  ∃ x, w.reactors.get? r = some x ∧ n + w.hooked r < x.handles

/-- What remains, with every reactor that somebody holds. -/
structure Appends (w w' : World) (added : Added) : Prop extends Remains w w' added where
  held : ∀ r n, w.HeldBesides n r → w'.HeldBesides n r

variable {u v w : World} {a b : Added}

theorem Remains.refl (w : World) : Remains w w .none :=
  ⟨fun _ x' h => ⟨x', h, (List.append_nil _).symm⟩, fun _ x' h => ⟨x', h, rfl, rfl⟩, rfl⟩

/-- A change of a reactor that leaves its table alone. -/
theorem Remains.modify_reactor (r : ReactorId) (w : World) {f : ReactorRecord → ReactorRecord}
    (same : ∀ x, (f x).table = x.table ∧ (f x).epoll = x.epoll) :
    Remains w { w with reactors := w.reactors.modify r f } .none where
  scheduler _ x' h := ⟨x', h, (List.append_nil _).symm⟩
  reactor j x' h := by
    rw [Table.get?_modify] at h
    split at h
    · obtain ⟨x, hx, rfl⟩ := Option.map_eq_some_iff.mp h
      exact ⟨x, hx, same x⟩
    · exact ⟨x', h, rfl, rfl⟩
  names := rfl

theorem Remains.of_same (schedulers : v.schedulers = u.schedulers)
    (reactors : v.reactors = u.reactors) (names : v.names = u.names) : Remains u v .none where
  scheduler _ x' h := ⟨x', schedulers ▸ h, (List.append_nil _).symm⟩
  reactor _ x' h := ⟨x', reactors ▸ h, rfl, rfl⟩
  names := names

theorem Remains.trans (h : Remains u v a) (g : Remains v w b) :
    Remains u w fun s => a s ++ b s where
  scheduler s x' hx' := by
    obtain ⟨y, hy, queue⟩ := g.scheduler s x' hx'
    obtain ⟨x, hx, queue'⟩ := h.scheduler s y hy
    exact ⟨x, hx, by rw [queue, queue', List.append_assoc]⟩
  reactor r x' hx' := by
    obtain ⟨y, hy, table, epoll⟩ := g.reactor r x' hx'
    obtain ⟨x, hx, table', epoll'⟩ := h.reactor r y hy
    exact ⟨x, hx, table.trans table', epoll.trans epoll'⟩
  names := g.names.trans h.names

theorem Remains.trans_none (h : Remains u v a) (g : Remains v w .none) : Remains u w a := by
  have both := h.trans g
  simpa only [Added.none, List.append_nil] using both

namespace Appends

theorem refl (w : World) : Appends w w .none := ⟨.refl w, fun _ _ h => h⟩

theorem trans (h : Appends u v a) (g : Appends v w b) : Appends u w fun s => a s ++ b s :=
  ⟨h.toRemains.trans g.toRemains, fun r n held => g.held r n (h.held r n held)⟩

theorem trans_none (h : Appends u v a) (g : Appends v w .none) : Appends u w a :=
  ⟨h.toRemains.trans_none g.toRemains, fun r n held => g.held r n (h.held r n held)⟩

/-- Where neither schedulers nor reactors nor names change, nothing is appended. -/
theorem of_same (schedulers : v.schedulers = u.schedulers) (reactors : v.reactors = u.reactors)
    (names : v.names = u.names) : Appends u v .none where
  toRemains := .of_same schedulers reactors names
  held r n h := by
    unfold World.HeldBesides World.hooked
    rw [schedulers, reactors]
    exact h

/-- A change of one scheduler, which does not change what its hooks hold. -/
theorem modify (s : SchedulerId) (w : World) {f : SchedulerRecord → SchedulerRecord}
    (queue : ∀ x, w.schedulers.get? s = some x → (f x).shared.queue = x.shared.queue ++ a s)
    (hooks : ∀ x h, (f x).hooks.handles.count h ≤ x.hooks.handles.count h)
    (others : ∀ j, j ≠ s → a j = []) :
    Appends w { w with schedulers := w.schedulers.modify s f } a where
  scheduler j x' h := by
    rw [Table.get?_modify] at h
    split at h
    · next hj =>
      subst hj
      obtain ⟨x, hx, rfl⟩ := Option.map_eq_some_iff.mp h
      exact ⟨x, hx, queue x hx⟩
    · next hj => exact ⟨x', h, by rw [others j hj, List.append_nil]⟩
  reactor _ x' h := ⟨x', h, rfl, rfl⟩
  names := rfl
  held r n h := by
    obtain ⟨x, hx, lt⟩ := h
    have fewer : World.hooked { w with schedulers := w.schedulers.modify s f } r ≤ w.hooked r :=
      Table.weight_modify_le _ _ fun x => hooks x _
    exact ⟨x, hx, by omega⟩

/-- A change of a scheduler that leaves its queue alone. -/
theorem modify_same (s : SchedulerId) (w : World) {f : SchedulerRecord → SchedulerRecord}
    (queue : ∀ x, (f x).shared.queue = x.shared.queue)
    (hooks : ∀ x h, (f x).hooks.handles.count h ≤ x.hooks.handles.count h) :
    Appends w { w with schedulers := w.schedulers.modify s f } .none :=
  modify s w (fun x _ => (queue x).trans (List.append_nil _).symm) hooks fun _ _ => rfl

end Appends

theorem Quiet.appends {w w' : World} (h : Quiet w w') : Appends w w' .none := by
  obtain ⟨_, _, _, rfl, _⟩ := h
  exact .of_same rfl rfl rfl

theorem wakePoller_on (epoll : Nat) (failure : String) (w : World) :
    ∃ w', (wakePoller epoll failure).on w = (.ok (), w') ∧ Appends w w' .none := by
  have woken : Appends w { w with kernel := (w.kernel.wake epoll).1 } .none := .of_same rfl rfl rfl
  rw [wakePoller, Act.on_bind_ok (kernel_on _ w)]
  split
  · exact ⟨_, Act.on_pure _ _, woken⟩
  · obtain ⟨w', logged, quiet⟩ := log_quiet .error _ { w with kernel := (w.kernel.wake epoll).1 }
    exact ⟨w', logged, woken.trans_none quiet.appends⟩

theorem schedulerRecord_on (s : SchedulerId) (w : World) :
    (schedulerRecord s).on w = (.ok ((w.schedulers.get? s).getD default), w) := rfl

theorem updateScheduler_on (s : SchedulerId) (f : SchedulerRecord → SchedulerRecord) (w : World) :
    (updateScheduler s f).on w = (.ok (), { w with schedulers := w.schedulers.modify s f }) := rfl

theorem tickle_on (s : SchedulerId) (w : World) :
    ∃ w', (tickle s).on w = (.ok (), w') ∧ Appends w w' .none := by
  rw [tickle, Act.on_bind_ok (schedulerRecord_on s w)]
  split
  · exact ⟨_, updateScheduler_on s _ w, Appends.modify_same s w (fun _ => rfl)
      fun _ _ => Nat.zero_le _⟩
  · exact ⟨_, updateScheduler_on s _ w, Appends.modify_same s w (fun _ => rfl)
      fun _ _ => Nat.zero_le _⟩
  · rw [Act.on_bind_get]
    split
    · exact wakePoller_on _ _ w
    · exact ⟨w, rfl, .refl w⟩

/-- Entries for one queue. -/
def Added.to (s : SchedulerId) (entries : List (QueueEntry Body)) : Added :=
  fun j => if j = s then entries else []

/-- The world in which entries were appended, before anyone is woken. -/
def World.withEntries (w : World) (s : SchedulerId) (entries : List (QueueEntry Body)) : World :=
  let shared := ((w.schedulers.get? s).getD default).shared.push entries
  { w with schedulers := w.schedulers.modify s fun r => { r with shared := shared.1 } }

theorem withEntries_appends (s : SchedulerId) (entries : List (QueueEntry Body)) (w : World) :
    Appends w (w.withEntries s entries) (.to s entries) := by
  refine .modify s w (fun r hr => ?_) (fun _ _ => Nat.le_refl _) fun j hj => if_neg hj
  rw [Added.to, if_pos rfl, hr]
  rfl

theorem enqueue_eq (s : SchedulerId) (entries : List (QueueEntry Body)) (w : World) :
    (enqueue s entries).on w =
      (if (((w.schedulers.get? s).getD default).shared.push entries).2 then tickle s
        else pure ()).on (w.withEntries s entries) := by
  rw [enqueue, Act.on_bind_ok (schedulerRecord_on s w)]
  exact Act.on_bind_ok (updateScheduler_on s _ w)

theorem enqueue_on (s : SchedulerId) (entries : List (QueueEntry Body)) (w : World) :
    ∃ w', (enqueue s entries).on w = (.ok (), w') ∧ Appends w w' (.to s entries) := by
  have pushed := withEntries_appends s entries w
  rw [enqueue_eq]
  split
  · obtain ⟨w', woken, quiet⟩ := tickle_on s (w.withEntries s entries)
    exact ⟨w', woken, pushed.trans_none quiet⟩
  · exact ⟨_, rfl, pushed⟩

theorem unmapStack_on (w : World) :
    ∃ w', unmapStack.on w = (.ok (), w') ∧ Appends w w' .none := by
  have unmapped : Appends w { w with kernel := w.kernel.unmapStack.1 } .none := .of_same rfl rfl rfl
  rw [unmapStack, Act.on_bind_ok (kernel_on _ w)]
  split
  · obtain ⟨w', logged, quiet⟩ := log_quiet .error _ { w with kernel := w.kernel.unmapStack.1 }
    exact ⟨w', logged, unmapped.trans_none quiet.appends⟩
  · exact ⟨_, rfl, unmapped⟩

/-- An effect that is not always done. -/
theorem optional_on {act : Act Unit} {w : World} (c : Prop) [Decidable c]
    (h : ∃ w', act.on w = (.ok (), w') ∧ Appends w w' .none) :
    ∃ w', (if c then act else pure ()).on w = (.ok (), w') ∧ Appends w w' .none := by
  split
  · exact h
  · exact ⟨w, rfl, .refl w⟩

theorem endFiber_on (id : FiberId) (r : FiberRecord Body) (w : World) :
    ∃ w', (endFiber id r).on w = (.ok ((r.entry.map Body.handles).getD []), w') ∧
      Appends w w' .none := by
  let u : World := { w with fibers := { w.fibers with live := w.fibers.live - 1 } }
  have counted : Appends w u .none := .of_same rfl rfl rfl
  obtain ⟨v, warned, quiet⟩ := optional_on (w := u) (r.leaks = true)
    (by
      obtain ⟨v, logged, quiet⟩ := log_quiet .warn
        s!"fiber {id.render} dropped in state {r.state.render}; its stack frames are leaked" u
      exact ⟨v, logged, quiet.appends⟩)
  obtain ⟨w', unmapped, quiet'⟩ := optional_on ((!r.isMain) = true) (unmapStack_on v)
  let last : World :=
    { w' with
      fibers := { w'.fibers with records := w'.fibers.records.erase id }
      saved := w'.saved.erase id }
  have gone : Appends w' last .none := .of_same rfl rfl rfl
  refine ⟨last, ?_, ((counted.trans_none quiet).trans_none quiet').trans_none gone⟩
  rw [endFiber, Act.on_bind_modify]
  exact (Act.on_when warned).trans (Act.on_when unmapped)

/-- A scheduler that ends gives back the handles that its hooks held. -/
theorem endScheduler_on {id : SchedulerId} {x : SchedulerRecord} {w : World}
    (found : w.schedulers.get? id = some x) :
    ∃ w', (endScheduler id x).on w = (.ok x.holds, w') ∧ Remains w w' .none ∧
      ∀ r n, w.HeldBesides n r → w'.HeldBesides (n + x.hooks.handles.count (.reactor r)) r := by
  let u : World := { w with schedulers := w.schedulers.erase id }
  have erased : Remains w u .none := by
    refine ⟨fun s x' h => ?_, fun _ x' h => ⟨x', h, rfl, rfl⟩, rfl⟩
    change (w.schedulers.erase id).get? s = some x' at h
    rw [Table.get?_erase] at h
    split at h
    · cases h
    · exact ⟨x', h, (List.append_nil _).symm⟩
  have held : ∀ r n, w.HeldBesides n r →
      u.HeldBesides (n + x.hooks.handles.count (.reactor r)) r := by
    rintro r n ⟨y, hy, lt⟩
    have fewer : u.hooked r + x.hooks.handles.count (.reactor r) ≤ w.hooked r :=
      Table.weight_erase_le found _
    exact ⟨y, hy, by omega⟩
  obtain ⟨v, warned, quiet⟩ := optional_on (w := u)
    ((x.shared.started && !x.shared.stopping) = true)
    (by
      obtain ⟨v, logged, quiet⟩ := log_quiet .warn
        s!"scheduler {x.config.name} dropped without stop()" u
      exact ⟨v, logged, quiet.appends⟩)
  obtain ⟨w', logged, quiet'⟩ := log_quiet .debug s!"scheduler {x.config.name} dropped" v
  have last := quiet.trans_none quiet'.appends
  refine ⟨w', ?_, erased.trans_none last.toRemains, fun r n h => last.held r _ (held r n h)⟩
  rw [endScheduler, Act.on_bind_modify]
  exact (Act.on_when warned).trans (Act.on_bind_ok logged)

theorem timerHandles_free (b : TimerBody) (r : ReactorId) : .reactor r ∉ b.handles := by
  cases b <;> simp [TimerBody.handles]

theorem bodyHandles_free (b : Body) (r : ReactorId) : .reactor r ∉ b.handles := by
  cases b with
  | timer b => exact timerHandles_free b r
  | script _ _ | root _ | idle _ => exact List.not_mem_nil

theorem taskHandles_free (t : Task Body) (r : ReactorId) : .reactor r ∉ taskHandles t := by
  cases t with
  | fiber id => simp [taskHandles]
  | callback b => exact bodyHandles_free b r

theorem handler_free (h : Handler) (r : ReactorId) : .reactor r ∉ h.handles := by
  intro mem
  rcases List.mem_cons.mp mem with e | mem
  · cases e
  · exact taskHandles_free h.task r mem

theorem scheduler_holds_count (x : SchedulerRecord) (r : ReactorId) :
    x.holds.count (.reactor r) = x.hooks.handles.count (.reactor r) := by
  have queue : .reactor r ∉ x.shared.queue.flatMap fun e => taskHandles e.task := by
    intro mem
    obtain ⟨e, _, mem⟩ := List.mem_flatMap.mp mem
    exact taskHandles_free e.task r mem
  have root : .reactor r ∉ (x.root.map Handle.fiber).toList := by
    cases x.root <;> simp
  rw [SchedulerRecord.holds, List.count_append, List.count_append, List.count_eq_zero.mpr queue,
    List.count_eq_zero.mpr root, Nat.add_zero]

theorem endReactor_on (id : ReactorId) (x : ReactorRecord) (w : World) :
    ∃ held w', (endReactor id x).on w = (.ok held, w') ∧ Remains w w' .none ∧
      (∀ r, .reactor r ∉ held) ∧
      ∀ r n, r ≠ id → w.HeldBesides n r → w'.HeldBesides n r := by
  obtain ⟨v, logged, quiet⟩ := optional_on (w := w) (0 < x.table.pending)
    (by
      obtain ⟨v, logged, quiet⟩ := log_quiet .debug
        s!"reactor dropped with {x.table.pending} pending registration(s)" w
      exact ⟨v, logged, quiet.appends⟩)
  let u : World :=
    { v with
      reactors := v.reactors.erase id
      kernel := { v.kernel with epolls := v.kernel.epolls.erase x.epoll } }
  have erased : Remains v u .none := by
    refine ⟨fun _ x' h => ⟨x', h, (List.append_nil _).symm⟩, fun j x' h => ?_, rfl⟩
    change (v.reactors.erase id).get? j = some x' at h
    rw [Table.get?_erase] at h
    split at h
    · cases h
    · exact ⟨x', h, rfl, rfl⟩
  have others : ∀ r n, r ≠ id → v.HeldBesides n r → u.HeldBesides n r := by
    rintro r n hr ⟨y, hy, lt⟩
    refine ⟨y, ?_, lt⟩
    change (v.reactors.erase id).get? r = some y
    rw [Table.get?_erase, if_neg hr, hy]
  let last : World := { u with timerSets := u.timerSets.erase x.timers }
  have gone : Appends u last .none := .of_same rfl rfl rfl
  obtain ⟨held, ended, free⟩ : ∃ held, (endTimers x.timers).on u = (.ok held, last) ∧
      ∀ r, .reactor r ∉ held := by
    refine ⟨_, rfl, fun r mem => ?_⟩
    split at mem
    · obtain ⟨e, _, mem⟩ := List.mem_flatMap.mp mem
      exact timerHandles_free e.2.callback r mem
    · cases mem
  refine ⟨x.table.handlers.flatMap Handler.handles ++ held, last, ?_,
    (quiet.toRemains.trans_none erased).trans_none gone.toRemains, fun r => ?_, fun r n hr h =>
      gone.held r n (others r n hr (quiet.held r n h))⟩
  · rw [endReactor]
    refine (Act.on_when logged).trans ?_
    rw [Act.on_bind_modify]
    exact Act.on_bind_ok ended
  · intro mem
    rcases List.mem_append.mp mem with mem | mem
    · obtain ⟨h, _, mem⟩ := List.mem_flatMap.mp mem
      exact handler_free h r mem
    · exact free r mem

theorem HeldBesides.mono {n k : Nat} {r : ReactorId} (h : w.HeldBesides n r) (le : k ≤ n) :
    w.HeldBesides k r := by
  obtain ⟨x, hx, lt⟩ := h
  exact ⟨x, hx, by omega⟩

/-- A handle less of a reactor, of several. -/
theorem HeldBesides.release {id r : ReactorId} {x : ReactorRecord} {n : Nat}
    (found : w.reactors.get? id = some x)
    (h : w.HeldBesides (n + [Handle.reactor id].count (.reactor r)) r) :
    World.HeldBesides
      { w with reactors := w.reactors.modify id fun x => { x with handles := x.handles - 1 } } n
      r := by
  obtain ⟨y, hy, lt⟩ := h
  by_cases hr : r = id
  · subst hr
    obtain rfl := Option.some.inj (found.symm.trans hy)
    rw [List.count_singleton_self] at lt
    refine ⟨{ x with handles := x.handles - 1 }, ?_, ?_⟩
    · rw [Table.get?_modify, if_pos rfl, found]
      rfl
    · change n + w.hooked r < x.handles - 1
      omega
  · refine ⟨y, ?_, ?_⟩
    · rw [Table.get?_modify, if_neg hr, hy]
    · change n + w.hooked r < y.handles
      omega

/-- To let go of a handle leaves what is alive as it is; a reactor that is held besides the handles
that are let go of, and those that they held, stays alive. -/
theorem releaseOne_on (h : Handle) (w : World) :
    ∃ held w', (releaseOne h).on w = (.ok held, w') ∧ Remains w w' .none ∧
      ∀ r n, w.HeldBesides (n + [h].count (.reactor r)) r →
        w'.HeldBesides (n + held.count (.reactor r)) r := by
  rw [releaseOne, Act.on_bind_get]
  cases h with
  | fiber id =>
    dsimp only
    split
    · exact ⟨[], w, rfl, .refl w, fun _ _ h => h⟩
    · next x _ =>
      split
      · exact ⟨[], _, rfl, .of_same rfl rfl rfl, fun _ _ h => h⟩
      · obtain ⟨w', ended, quiet⟩ := endFiber_on id x w
        refine ⟨_, w', ended, quiet.toRemains, fun r n h => ?_⟩
        have free : .reactor r ∉ (x.entry.map Body.handles).getD [] := by
          cases x.entry with
          | none => exact List.not_mem_nil
          | some b => exact bodyHandles_free b r
        rw [List.count_eq_zero.mpr free]
        exact quiet.held r n h
  | scheduler id =>
    dsimp only
    split
    · exact ⟨[], w, rfl, .refl w, fun _ _ h => h⟩
    · next x found =>
      split
      · have quiet := Appends.modify_same id w (f := fun x => { x with handles := x.handles - 1 })
          (fun _ => rfl) fun _ _ => Nat.le_refl _
        exact ⟨[], _, rfl, quiet.toRemains, fun r n h => quiet.held r n h⟩
      · obtain ⟨w', ended, remains, held⟩ := endScheduler_on found
        refine ⟨_, w', ended, remains, fun r n h => ?_⟩
        rw [scheduler_holds_count]
        exact held r n h
  | reactor id =>
    dsimp only
    split
    · exact ⟨[], w, rfl, .refl w, fun _ n h => HeldBesides.mono h (Nat.le_add_right n _)⟩
    · next x found =>
      split
      · refine ⟨[], _, rfl, .modify_reactor id w fun _ => ⟨rfl, rfl⟩, fun r n h => ?_⟩
        exact HeldBesides.release found h
      · next few =>
        obtain ⟨held, w', ended, remains, free, others⟩ := endReactor_on id x w
        refine ⟨held, w', ended, remains, fun r n h => ?_⟩
        rw [List.count_eq_zero.mpr (free r)]
        refine others r n ?_ (HeldBesides.mono h (Nat.le_add_right n _))
        -- The last handle of a reactor that is held besides is not let go of.
        rintro rfl
        obtain ⟨y, hy, lt⟩ := h
        obtain rfl := Option.some.inj (found.symm.trans hy)
        rw [List.count_singleton_self] at lt
        omega

theorem releaseUpTo_on (n : Nat) (hs : List Handle) (w : World) :
    ∃ w', (releaseUpTo n hs).on w = (.ok (), w') ∧ Remains w w' .none ∧
      ∀ r k, w.HeldBesides (k + hs.count (.reactor r)) r → w'.HeldBesides k r := by
  induction n generalizing hs w with
  | zero =>
    cases hs with
    | nil => exact ⟨w, rfl, .refl w, fun _ _ h => h⟩
    | cons h hs => exact ⟨w, rfl, .refl w, fun _ k h => HeldBesides.mono h (Nat.le_add_right k _)⟩
  | succ n ih =>
    cases hs with
    | nil => exact ⟨w, rfl, .refl w, fun _ _ h => h⟩
    | cons h hs =>
      obtain ⟨held, v, released, remains, kept⟩ := releaseOne_on h w
      obtain ⟨w', rest, remains', kept'⟩ := ih (held ++ hs) v
      refine ⟨w', (Act.on_bind_ok released).trans rest, remains.trans_none remains', ?_⟩
      intro r k besides
      refine kept' r k ?_
      rw [List.count_append, Nat.add_comm (held.count _), ← Nat.add_assoc]
      refine kept r _ ?_
      have split : (h :: hs).count (.reactor r) =
          hs.count (.reactor r) + [h].count (.reactor r) := by
        rw [List.count_cons, List.count_cons, List.count_nil, Nat.zero_add]
      rwa [split, ← Nat.add_assoc] at besides

/-- To let go of handles that are not of reactors keeps every reactor that somebody holds. -/
theorem release_on {hs : List Handle} (free : ∀ r, .reactor r ∉ hs) (w : World) :
    ∃ w', (release hs).on w = (.ok (), w') ∧ Appends w w' .none := by
  rw [release, Act.on_bind_get]
  obtain ⟨w', released, remains, held⟩ := releaseUpTo_on (w.handleCount + hs.length) hs w
  exact ⟨w', released, remains, fun r n h => held r n (by rwa [List.count_eq_zero.mpr (free r)])⟩

/-- The entries of handlers that fired, for the schedulers that they are stored with. -/
def Added.fired (hs : List Handler) : Added := fun s =>
  (hs.filter fun h => decide (h.scheduler = s)).map fun h => ⟨h.task, Option.none⟩

theorem Added.fired_cons (h : Handler) (hs : List Handler) :
    Added.fired (h :: hs) = fun s =>
      Added.to h.scheduler [⟨h.task, Option.none⟩] s ++ Added.fired hs s := by
  funext s
  by_cases hs : h.scheduler = s
  · simp [Added.fired, Added.to, hs]
  · simp [Added.fired, Added.to, hs, Ne.symm hs]

theorem fireAll_on (hs : List Handler) (w : World) :
    ∃ w', (fireAll hs).on w = (.ok (), w') ∧ Appends w w' (.fired hs) := by
  induction hs generalizing w with
  | nil => exact ⟨w, rfl, .refl w⟩
  | cons h hs ih =>
    obtain ⟨u, queued, appends⟩ := enqueue_on h.scheduler [⟨h.task, none⟩] w
    have free : ∀ r, Handle.reactor r ∉ [Handle.scheduler h.scheduler] := by simp
    obtain ⟨v, released, quiet⟩ := release_on free u
    obtain ⟨w', rest, appends'⟩ := ih v
    refine ⟨w', ?_, ?_⟩
    · have first : (do
          enqueue h.scheduler [⟨h.task, none⟩]
          release [.scheduler h.scheduler] : Act Unit).on w = (.ok (), v) :=
        (Act.on_bind_ok queued).trans released
      exact (Act.on_bind_ok first).trans rest
    · rw [Added.fired_cons]
      exact (appends.trans_none quiet).trans appends'

end Fibers.Script
