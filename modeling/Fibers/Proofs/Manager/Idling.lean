import Fibers.Proofs.Manager.Working

/-!
What the idle fiber does while the run loop has nothing to take. It looks whether the run loop may
end; if not, it waits for the poller no longer than until the next timer, and queues the callbacks
of due timers and the tasks of fired handlers. Then the run loop looks for work again.
-/

namespace Fibers.Script

open Reactor (Registry)

namespace Store

variable {p : Station} {b : Books} {c : Scene}

/-- There is no task where nothing is armed, entered, queued or at hand. -/
theorem idle (h : Store p b c) (hand : b.hand = []) (queue : c.shared.queue = [])
    (pending : c.table.pending = 0) (timers : c.timers.hasTimer = false) : b.tasks = [] := by
  have slots : c.timers.slots.entries = [] := by
    have empty : c.timers.slots.isEmpty = true := by
      rw [Timers.hasTimer, Bool.not_eq_false'] at timers
      exact timers
    exact List.isEmpty_iff.mp empty
  have handlers : b.registry.entries = [] :=
    List.length_eq_zero_iff.mp (h.table.pending.symm.trans pending)
  have tasks : c.tasks b.registry = [] := by
    rw [Scene.tasks, Timers.owed, Timers.owedBy, Table.values, slots, Table.values, handlers, queue]
    rfl
  have all := h.tasks
  rw [tasks, hand] at all
  exact all.eq_nil

/-- The history is complete where there is no task. -/
theorem settled (h : Store p b c) (none : b.tasks = []) (risen : b.risen = [])
    (queue : c.shared.queue = []) (active : c.shared.active = 0) (pending : c.table.pending = 0)
    (timers : c.timers.hasTimer = false) : Settled b.notes c := by
  refine ⟨queue, active, pending, timers, fun body => ?_, fun id => ?_⟩
  · have balance := h.sound.balance body
    rw [Books.bodies, none] at balance
    exact balance
  · have sleeps := h.sound.sleeps id
    rw [Books.sleepers, Books.fibers, none, risen] at sleeps
    exact sleeps

end Store

namespace Station

variable {p : Station} {b : Books} {c u : Scene} {w w' : World} {k : Bench} {d : Datum}
  {f : Frame} {rest : List Frame} {s : Signal} {entry : Option Body} {extra : Nat}

/-- An effect whose end is known, before another one. -/
theorem Ends.after {α β : Type} {x : Act α} {f : α → Act β} {a : α}
    {post : Except Stop β → Scene → Prop} (did : x.on w = (.ok a, w'))
    (h : p.Ends w' (f a) post) : p.Ends w (x >>= f) post := by
  obtain ⟨u, shows, good⟩ := h
  refine ⟨u, ?_, ?_⟩ <;> rw [Act.on_bind_ok did]
  · exact shows
  · exact good

theorem Depicts.harvested (shows : p.Depicts c w) {found : List (Int × Event)}
    (h : Harvested p.epoll w found w') : p.Depicts c w' := by
  have spares := Kernel.State.Spares.of_harvested h
  obtain ⟨clock, kernel, rfl⟩ := h.world
  exact shows.outside (shows.ample.spared spares) clock

theorem logWait_spares (id : Nat) (k : Kernel.State) (millis result : Int) :
    Kernel.State.Spares id k (k.logWait millis result) :=
  .of_consumed (logWait_consumed k millis result)

theorem waitFault_spares (id : Nat) (k : Kernel.State) :
    Kernel.State.Spares id k (k.waitFault id).1 := by
  unfold Kernel.State.waitFault
  split
  · exact ⟨fun _ h => h, fun e h => ⟨e, h, rfl⟩⟩
  · split <;> exact .refl k

/-- A wait is over at once, or the thread waits. -/
theorem poll_ends (shows : p.Depicts c w) (timeout : Duration) :
    p.Ends w (poll p.epoll (some timeout)) fun r u =>
      (∃ res, r = .ok (.polled res)) ∧ u = c ∨
        r = .ok (.done .null) ∧
          ∃ millis t, u = { c with wait := some (.epoll p.epoll millis t) } := by
  obtain ⟨e, set, room⟩ := shows.ample.set
  refine Ends.get ?_
  rw [set]
  refine (allocate_does room).ends_bind shows fun w₁ shows₁ => ?_
  let millis := Kernel.timeoutMillis (some timeout)
  rcases fault : w₁.kernel.waitFault p.epoll with ⟨k, n⟩
  have spares := waitFault_spares p.epoll w₁.kernel
  rw [fault] at spares
  have asked : (kernel (·.waitFault p.epoll)).on w₁ = (.ok n, { w₁ with kernel := k }) := by
    rw [kernel_on, fault]
  have shows₂ := shows₁.inKernel spares
  have logs : ∀ result, p.Does c (kernelDo (·.logWait millis result)) () c := fun result =>
    .kernel fun k => logWait_spares p.epoll k millis result
  refine Ends.after asked ?_
  cases n with
  | some n => exact (logs (-n)).ends_bind shows₂ fun _ told => .pure told (.inl ⟨⟨_, rfl⟩, rfl⟩)
  | none =>
    obtain ⟨found, w₃, harvested, ⟨looked, -⟩ | looked⟩ := pollNow_on p.epoll millis
      { w₁ with kernel := k }
    all_goals have shows₃ := Depicts.harvested shows₂ harvested
    · refine Ends.after looked (Ends.get ?_)
      split
      · let t : Option Instant :=
          (if millis < 0 then none else some (Duration.ofMillis millis.toNat)).map (w₃.clock + ·)
        have until? : (deadline (if millis < 0 then none
            else some (Duration.ofMillis millis.toNat))).on w₃ = (.ok t, w₃) := rfl
        refine Ends.after until? ?_
        have waits : p.Does c
            (updateThread fun x => { x with wait := some (.epoll p.epoll millis t) }) ()
            { c with wait := some (.epoll p.epoll millis t) } :=
          updateThread_does fun _ is => { is with wait := rfl }
        exact waits.ends_bind shows₃ fun _ told => .pure told (.inr ⟨rfl, millis, t, rfl⟩)
      · have later : p.Does c
            (modify fun w => { w with clock := w.clock + Duration.ofMillis millis.toNat }) () c :=
          .modify fun w shows => shows.outside shows.ample _
        exact later.ends_bind shows₃ fun _ told => (logs 0).ends_bind told fun _ told =>
          .pure told (.inl ⟨⟨_, rfl⟩, rfl⟩)
    · exact Ends.after looked (.pure shows₃ (.inl ⟨⟨_, rfl⟩, rfl⟩))

/-- A thread that waits for the poller looks whether something has come. -/
theorem tryWait_ends (shows : p.Depicts c w) (millis : Int) (t : Option Instant) :
    ∃ told w', (tryWait (.epoll p.epoll millis t)).on w = (.ok told, w') ∧ p.Depicts c w' ∧
      (told = none ∨ ∃ res, told = some (.polled res)) := by
  obtain ⟨found, v, harvested, ⟨looked, -⟩ | looked⟩ := pollNow_on p.epoll millis w
  all_goals have shows' := Depicts.harvested shows harvested
  · cases past : v.isPast t with
    | true =>
      refine ⟨some (.polled (.ok [])), { v with kernel := v.kernel.logWait millis 0 }, ?_,
        shows'.inKernel (logWait_spares p.epoll v.kernel millis 0), .inr ⟨_, rfl⟩⟩
      rw [tryWait, Act.on_bind_ok looked]
      dsimp only
      rw [Act.on_bind_get, if_pos past]
      rfl
    | false =>
      refine ⟨none, v, ?_, shows', .inl rfl⟩
      rw [tryWait, Act.on_bind_ok looked]
      dsimp only
      rw [Act.on_bind_get, if_neg (by rw [past]; exact Bool.false_ne_true)]
      rfl
  · refine ⟨some (.polled (.ok found)), v, ?_, shows', .inr ⟨_, rfl⟩⟩
    rw [tryWait, Act.on_bind_ok looked]
    rfl

/-- A wait is over, or goes on. -/
theorem waits_step (shows : p.Depicts c w) {millis : Int} {t : Option Instant}
    (waits : c.wait = some (.epoll p.epoll millis t)) (round : w.round = some w') :
    p.Depicts c w' ∨ ∃ res, p.Depicts { c with signal := .polled res, wait := none } w' := by
  obtain ⟨clock, rfl⟩ := shows.step round
  obtain ⟨told, v, looked, shows', outcome⟩ := tryWait_ends shows millis t
  have is := shows.thread
  have looked : (tryWait (.epoll p.epoll millis t)).run.run w = (.ok told, v) := looked
  rcases outcome with rfl | ⟨res, rfl⟩
  · have step : w.step.2 = v := by
      simp only [World.step, is.ended, is.wait, waits, looked, Option.isSome_none,
        Bool.false_eq_true, if_false]
    rw [step]
    exact .inl (shows'.outside shows'.ample clock)
  · have step : w.step.2 =
        v.updateThread fun t => { t with wait := none, signal := .polled res } := by
      simp only [World.step, is.ended, is.wait, waits, looked, Option.isSome_none,
        Bool.false_eq_true, if_false]
    rw [step]
    have shown := shows'.signalled (.polled res) none
    exact .inr ⟨res, shown.outside shown.ample clock⟩

/-- Callbacks of timers let go of what they hold. -/
theorem lost_frees (lost : List TimerBody)
    (mine : ∀ s g, TimerBody.wake s g ∈ lost → s = p.scheduler ∧
      ∀ r, c.fibers.get? g = some r → r.entry = none)
    (several : lost.countP TimerBody.isWake < c.handles) :
    ∃ u, p.Frees c (lost.flatMap TimerBody.handles) u := by
  induction lost generalizing c with
  | nil => exact ⟨c, .nil c⟩
  | cons callback lost ih =>
    have rest := fun s g mem => mine s g (List.mem_cons_of_mem callback mem)
    cases callback with
    | wake s g =>
      obtain ⟨rfl, light⟩ := mine s g List.mem_cons_self
      rw [List.countP_cons_of_pos rfl] at several
      let v : Scene := { c with handles := c.handles - 1 }
      have left : lost.countP TimerBody.isWake < (v.freed g).handles := by
        change lost.countP TimerBody.isWake < c.handles - 1
        omega
      obtain ⟨u, frees⟩ := ih (c := v.freed g) (fun s' g' mem => by
        refine ⟨(rest s' g' mem).1, fun r found => ?_⟩
        obtain ⟨q, found', same⟩ := released_entry g found
        exact same.trans ((rest s' g' mem).2 q found')) left
      exact ⟨u, .cons (releaseOne_scheduler_does (by omega))
        (.cons (releaseOne_fiber_does fun r found => .inl (light r found)) frees)⟩
    | script block label => exact ih rest several
    | guarded object block label => exact ih rest several

/-- The callback of a sleep that is owed is that of a sleeping fiber. -/
theorem wake_known (h : Stock p b c) {x : SchedulerId} {g : FiberId}
    (owed : TimerBody.wake x g ∈ c.timers.owed) :
    x = p.scheduler ∧ ∀ r, c.fibers.get? g = some r → r.entry = none := by
  have mem : Task.callback (.timer (.wake x g)) ∈ b.tasks :=
    h.tasks.mem_iff.mpr (List.mem_append_left _ (List.mem_append_left _ (List.mem_map_of_mem owed)))
  have waits : g ∈ b.fibers := Books.mem_fibers.mpr ⟨_, mem, List.mem_singleton.mpr rfl⟩
  have asleep := h.sound.drowsy _ mem rfl g (List.mem_singleton.mpr rfl)
  refine ⟨h.sound.takes _ mem, fun r found => ?_⟩
  have cell : (b.post g).cell p g (b.spare g + 1) ∈ b.known ++ b.crew p :=
    List.mem_append_right _ (List.mem_map_of_mem waits)
  obtain ⟨⟨q, found', _, entry, _⟩, _⟩ := h.ground.holds _ cell
  rw [Posture.cell_id, found] at found'
  obtain rfl := Option.some.inj found'
  cases posture : b.post g with
  | asleep => rw [entry, posture]; rfl
  | fresh => rw [posture] at asleep; cases asleep
  | ready => rw [posture] at asleep; cases asleep

/-- The callbacks of due timers are taken out, if the deadlines of recurring ones can be told. -/
theorem expire_ends (h : Stock p b c) (due : 1 ≤ b.due) (shows : p.Depicts c w) :
    p.Ends w (expire p.timers) fun r u =>
      r = .error (.panic .instantOverflow) ∨
        ∃ m, r = .ok ((Timers.takeDue w.clock c.timers.heap c.timers.slots).callbacks.map (·.1)) ∧
          u = { c with timers := m } ∧ m.Kept ∧ m.lastId = c.timers.lastId ∧
          Timers.Inherits c.timers.slots m.slots ∧
          c.timers.owed.Perm
            (((Timers.takeDue w.clock c.timers.heap c.timers.slots).callbacks.filter (!·.2)).map
              (·.1) ++ m.owed) ∧
          ∀ x ∈ (Timers.takeDue w.clock c.timers.heap c.timers.slots).callbacks, x.2 = true →
            x.1.isWake = false := by
  obtain ⟨m, res, expired, kept, last, inherits, owed, taken, ends⟩ :=
    Timers.expire_owed h.timers w.clock
  have does := onTimers_does (p := p) (c := c) (·.expire w.clock)
  rw [expired] at does
  refine Ends.get (does.ends_bind shows fun v shows' => ?_)
  rcases ends with rfl | rfl
  · let lost := ((Timers.takeDue w.clock c.timers.heap c.timers.slots).callbacks.filter (!·.2)).map
      (·.1)
    have fewer : lost.countP TimerBody.isWake < c.handles := by
      have enough := h.handles
      have tasks := h.tasks.countP_eq isWakeTask
      have wakes : c.timers.owed.countP TimerBody.isWake =
          (c.timers.owed.map fun b => Task.callback (Body.timer b)).countP isWakeTask := by
        rw [List.countP_map]
        rfl
      rw [owed.countP_eq, List.countP_append] at wakes
      simp only [Scene.tasks, List.countP_append] at tasks
      change lost.countP TimerBody.isWake + _ = _ at wakes
      omega
    obtain ⟨u, frees⟩ := lost_frees (c := { c with timers := m }) lost
      (fun s g mem => wake_known h (owed.mem_iff.mpr (List.mem_append_left _ mem))) fewer
    exact frees.does.ends_bind shows' fun v told => .raise told (.inl rfl)
  · refine Does.ends (Does.when_bind (.log _ _) (.pure _)) shows' ?_
    refine .inr ⟨m, rfl, rfl, kept, last, inherits, owed, fun x mem recurs => ?_⟩
    obtain ⟨id, s, found, callback, recurring⟩ := taken x mem
    exact callback ▸ h.recurring id s found (recurring.trans recurs)

/-- How a report of the poller is handled. -/
theorem dispatch_outcome {m : Registry Handler} {t : Reactor.FdTable Handler} (holds : t.Holds m)
    (epoll : Nat) (x : Kernel.State) (fd : Int) (e : Event) :
    ∃ x' t' a, t.dispatch (Reactor.epollPoller epoll) x fd e = (x', t', a) ∧
      Kernel.State.Spares epoll x x' ∧
      ((a = .ignored ∨ ∃ left cause, a = .refused left cause) ∧ t' = t ∨
        ∃ es, a = .fired (m.fire fd es).2 ∧ t'.Holds (m.fire fd es).1) := by
  cases ignored : (e.inter (m.armed fd)).isEmpty with
  | true => exact ⟨_, _, _, holds.dispatch_ignored ignored, .refl x, .inl ⟨.inl rfl, rfl⟩⟩
  | false =>
    have spares := x.tell_spares epoll fd (m.armed fd) ((m.armed fd).without (e.inter (m.armed fd)))
    rcases told : (Reactor.epollPoller epoll).tell x fd (m.armed fd)
      ((m.armed fd).without (e.inter (m.armed fd))) with ⟨x', cause | _⟩
    all_goals rw [told] at spares
    · exact ⟨_, _, _, holds.dispatch_refused ignored told, spares,
        .inl ⟨.inr ⟨_, cause, rfl⟩, rfl⟩⟩
    · obtain ⟨t', fired, holds'⟩ := holds.dispatch_fired ignored told
      exact ⟨_, _, _, fired, spares, .inr ⟨_, rfl, holds'⟩⟩

/-- What a poller reported queues the tasks of handlers. -/
theorem dispatch_keeps (found : List (Int × Event)) (h : Stock p b c) (due : 1 ≤ b.due)
    (shows : p.Depicts c w) :
    p.Ends w (dispatch p.reactor found) fun r u => r = .ok () ∧ p.Keeps b c [] u := by
  induction found generalizing b c w with
  | nil => exact .pure shows ⟨rfl, .refl h⟩
  | cons report found ih =>
    obtain ⟨fd, e⟩ := report
    rw [dispatch_cons]
    have goes_on : ∀ {u w'}, p.Depicts u w' → p.Keeps b c [] u →
        p.Ends w' (dispatch p.reactor found) fun r v => r = .ok () ∧ p.Keeps b c [] v := by
      rintro u w' told ⟨calm, b', stock, stays, notes⟩
      refine (ih stock (stays.due ▸ due) told).mono fun r v ended => ⟨ended.1, ?_⟩
      obtain ⟨-, calm', b'', stock', stays', notes'⟩ := ended
      exact ⟨calm.trans calm', b'', stock', stays.trans stays', notes'.trans notes⟩
    refine Ends.bind (?_ : p.Ends w _ fun r u => r = .ok () ∧ p.Keeps b c [] u) ?_ ?_
    · refine (onTable_ends (fun x => dispatch_outcome h.table p.epoll x fd e) shows).bind
        (fun a u v told made => ?_) fun e u made => ?_
      · obtain ⟨a', t, same, outcome, rfl⟩ := made
        obtain rfl := Except.ok.inj same
        rcases outcome with ⟨rfl | ⟨left, cause, rfl⟩, rfl⟩ | ⟨es, rfl, holds⟩
        · exact .pure told ⟨rfl, .refl h⟩
        · exact (Does.log _ _).ends told ⟨rfl, .refl h⟩
        · obtain ⟨u, does, keeps⟩ :=
            fires_keeps h due (Registry.fire_values h.table.distinct fd es) holds
          exact does.ends told ⟨rfl, keeps⟩
      · obtain ⟨_, _, bad, _⟩ := made
        cases bad
    · rintro ⟨⟩ u w' told ⟨-, keeps⟩
      exact goes_on told keeps
    · rintro e u ⟨bad, -⟩
      cases bad

/-- The idle fiber goes on with the work of a scene. -/
theorem idles_on {fs : List Frame} {x : Option Wait} (valid : k.Valid)
    (live : Live p (k.idling p none 1) b c) (spare : ∀ id, b.spare id = 0)
    (idling : Idling p k.idle fs s x none 1) :
    Phase p k.back b.notes { c with frames := fs, signal := s, wait := x } := by
  have live' : Live p (k.idling p none 1) b { c with frames := fs, signal := s, wait := x } :=
    { live with
      stock := ⟨live.store.refit ⟨rfl, rfl, rfl, rfl, rfl, rfl⟩ ⟨rfl, rfl, rfl, rfl⟩
        (Nat.le_refl _) (Nat.le_refl _), live.stock.ground.congr rfl rfl rfl, live.stock.seniors⟩ }
  exact .idling k rfl valid idling live' spare rfl

/-- The idle fiber takes handles of the scheduler and the reactor, and looks for the first time. -/
theorem startIdle_does (room : p.settings.maxEvents * 8 < rowLimit) :
    p.Does c (startBody (.idle p.scheduler)) (.done .null)
      { c with
        handles := c.handles + 1
        held := c.held + 1
        frames := .idleReactor p.scheduler p.reactor ::
          .release [.reactor p.reactor, .scheduler p.scheduler] :: c.frames } := by
  refine Does.get fun w shows => ?_
  rw [shows.alive]
  refine Does.schedulerRecord fun x is => ?_
  rw [is.hooks]
  refine (retainAll_pair retain_reactor_does retain_scheduler_does).bind ((push_does _).bind ?_)
  refine (push_does _).bind (Does.get fun v shown => ?_)
  obtain ⟨y, found, is'⟩ := shown.reactor
  rw [found, Option.getD_some, is'.config]
  exact (allocate_does room).bind (.pure _)

theorem schedulerName_does : p.Does c (schedulerName p.scheduler) p.config.name c :=
  Does.schedulerRecord fun _ is => is.config ▸ .pure _

/-- The idle fiber finds that there is nothing left. -/
theorem exits_does
    (finished : (c.table.pending == 0 && !c.timers.hasTimer && c.shared.isDone) = true) :
    p.Does c (idleReactor p.scheduler p.reactor) (.done .null) c := by
  refine Does.get fun v shown => ?_
  have stops : v.isStopping p.scheduler = true := shown.isStopping.trans finished
  rw [stops, if_pos rfl]
  exact schedulerName_does.bind ((Does.log _ _).bind (tickle_does.bind (.pure _)))

section Idling

variable (shows : p.Depicts c w) (valid : k.Valid) (round : w.round = some w')
  (spare : ∀ id, b.spare id = 0)
include shows valid round spare

theorem begins_idling_goes (room : p.settings.maxEvents * 8 < rowLimit)
    (live : Live p (k.idling p (some (.idle p.scheduler)) 0) b c)
    (frames : c.frames = [.fiberStart k.idle]) (signal : c.signal = .done d)
    (wait : c.wait = none) :
    ∃ c', p.Depicts c' w' ∧ Phase p k.back (w.notes w'.thread.signal ++ b.notes) c' := by
  obtain ⟨entry, floor⟩ := live.floor.begun
  let begun : Scene :=
    { c with fibers := (c.fibers.takeEntry k.idle).1, frames := [.fiberBody k.idle] }
  let u : Scene :=
    { begun with
      handles := c.handles + 1
      held := c.held + 1
      frames := .idleReactor p.scheduler p.reactor :: p.resting k.idle }
  have does : p.Does { c with frames := [] } (startFiber k.idle) (.done .null) u :=
    startFiber_does entry (startIdle_does (c := begun) room)
  have quiet : w.notes w'.thread.signal = [] := by
    obtain ⟨⟨r, found, _, entry, _⟩, _⟩ := live.floor.holds _ List.mem_cons_self
    rw [World.notes, shows.thread.frames, frames]
    simp only [World.bodyOf, shows.fibers, found, Option.bind_some, entry]
    rfl
  refine goes_quiet shows wait frames round quiet (by rw [signal]; rfl) does ?_
  have live' : Live p (k.idling p none 1) (b.seated (k.idling p none 1) b.spare) u := by
    refine .of_store live.store ⟨rfl, rfl, rfl, rfl⟩ (floor.congr rfl rfl rfl)
      (Bench.idling_seniors valid none 1) live.hand live.risen ?_ ?_ live.active live.stopping
      live.autoStop
    · rw [live.due]
      change 3 + 1 + c.handles ≤ 3 + 0 + (c.handles + 1)
      omega
    · rw [live.lent]
      change 1 + 1 + c.held ≤ 1 + 0 + (c.held + 1)
      omega
  have phase := idles_on valid live' spare (.looks (p := p) .null)
  rw [← wait] at phase
  exact phase

omit spare in
/-- The idle fiber finds that there is nothing left. -/
theorem exits_goes (live : Live p (k.idling p none 1) b c)
    (frames : c.frames = .idleReactor p.scheduler p.reactor :: p.resting k.idle)
    (signal : c.signal = .done d) (wait : c.wait = none)
    (finished : (c.table.pending == 0 && !c.timers.hasTimer && c.shared.isDone) = true) :
    ∃ c', p.Depicts c' w' ∧ Phase p k.back (w.notes w'.thread.signal ++ b.notes) c' := by
  refine goes_quiet shows wait frames round ?_ (by rw [signal]; rfl)
    (exits_does (c := { c with frames := p.resting k.idle }) finished) ?_
  · rw [World.notes, shows.thread.frames, frames]
  · simp only [Bool.and_eq_true, beq_iff_eq, Bool.not_eq_true', Shared.isDone,
      List.isEmpty_iff] at finished
    obtain ⟨⟨pending, timers⟩, ⟨⟨-, -⟩, queue⟩, active⟩ := finished
    have nothing := live.store.idle live.hand queue pending timers
    have settled := live.store.settled nothing live.risen queue active pending timers
    have floor := live.floor
    have crew : b.crew p = [] := by
      rw [Books.crew, Books.fibers, nothing]
      rfl
    rw [crew, List.append_nil] at floor
    have enough := live.stock.handles
    have enough' := live.stock.held
    rw [live.due] at enough
    rw [live.lent] at enough'
    exact .closing k rfl valid ⟨queue, active, pending, timers, settled.bodies, settled.sleeps⟩
      (.idleExits .null) (floor.congr rfl rfl rfl) wait (Nat.le_trans (Nat.le_add_right 4 _) enough)
      (Nat.le_trans (Nat.le_add_right 2 _) enough')

/-- The idle fiber waits for the poller no longer than until the next timer. -/
theorem looks_goes (live : Live p (k.idling p none 1) b c)
    (frames : c.frames = .idleReactor p.scheduler p.reactor :: p.resting k.idle)
    (signal : c.signal = .done d) (wait : c.wait = none) (timely : w'.Timely) :
    ∃ c', p.Depicts c' w' ∧ Phase p k.back (w.notes w'.thread.signal ++ b.notes) c' := by
  cases finished : c.table.pending == 0 && !c.timers.hasTimer && c.shared.isDone with
  | true => exact exits_goes shows valid round live frames signal wait finished
  | false =>
    have quiet : ∀ s, w.notes s = [] := fun s => by
      rw [World.notes, shows.thread.frames, frames]
    have looks : proceedWith (.idleReactor p.scheduler p.reactor) c.signal =
        idleReactor p.scheduler p.reactor := by
      rw [signal]
      rfl
    refine goes shows wait frames round timely looks ?_
    have told := shows.popped (p.resting k.idle)
    have stops : (w.popped (p.resting k.idle)).isStopping p.scheduler = false :=
      told.isStopping.trans finished
    refine Ends.get ?_
    rw [stops, if_neg Bool.false_ne_true]
    refine Ends.get ?_
    obtain ⟨x, found, is⟩ := told.reactor
    rw [found, Option.getD_some]
    dsimp only
    rw [is.timers, is.epoll]
    let m := (c.timers.next (w.popped (p.resting k.idle)).clock).1
    let timeout := Reactor.waitBound (c.timers.next (w.popped (p.resting k.idle)).clock).2
      x.config.maxWait
    refine (onTimers_does (·.next (w.popped (p.resting k.idle)).clock)).ends_bind told
      fun v₁ told₁ => ?_
    refine (push_does _).ends_bind told₁ fun v₂ told₂ => ?_
    refine (push_does _).ends_bind told₂ fun v₃ told₃ => ?_
    have live' : Live p (k.idling p none 1) b { c with timers := m } := { live with
      stock := live.stock.keeps_timers ⟨live.stock.timers.distinct, live.stock.timers.numbered⟩
        rfl (.refl _) (.refl _) }
    refine (poll_ends told₃ _).mono ?_
    rintro r u (⟨⟨res, rfl⟩, rfl⟩ | ⟨rfl, millis, t, rfl⟩)
    · rw [quiet]
      have phase := idles_on valid live' spare (.polls (p := p) timeout res)
      rw [← wait] at phase
      exact .inr phase
    · rw [quiet]
      have phase := idles_on valid live' spare (.waits (p := p) timeout (.done .null) millis t)
      exact .inr phase

/-- A wait is over, or goes on. -/
theorem waits_goes {timeout : Duration} {millis : Int} {t : Option Instant}
    (live : Live p (k.idling p none 1) b c)
    (frames : c.frames = .idlePoll p.reactor timeout :: .idlePolled p.scheduler p.reactor ::
      p.resting k.idle)
    (wait : c.wait = some (.epoll p.epoll millis t)) :
    ∃ c', p.Depicts c' w' ∧ Phase p k.back (w.notes w'.thread.signal ++ b.notes) c' := by
  have quiet : w.notes w'.thread.signal = [] := by
    rw [World.notes, shows.thread.frames, frames]
  rw [quiet]
  rcases waits_step shows wait round with shows' | ⟨res, shows'⟩
  · have phase := idles_on valid live spare (.waits (p := p) timeout c.signal millis t)
    rw [← frames, ← wait] at phase
    exact ⟨c, shows', phase⟩
  · have phase := idles_on valid live spare (.polls (p := p) timeout res)
    rw [← frames] at phase
    exact ⟨_, shows', phase⟩

/-- The end of a wait: an interrupted one is made again. -/
theorem polls_goes {timeout : Duration} {res : Except OsError (List (Int × Event))}
    (live : Live p (k.idling p none 1) b c)
    (frames : c.frames = .idlePoll p.reactor timeout :: .idlePolled p.scheduler p.reactor ::
      p.resting k.idle)
    (signal : c.signal = .polled res) (wait : c.wait = none) (timely : w'.Timely) :
    ∃ c', p.Depicts c' w' ∧ Phase p k.back (w.notes w'.thread.signal ++ b.notes) c' := by
  let fs : List Frame := .idlePolled p.scheduler p.reactor :: p.resting k.idle
  have quiet : ∀ s, w.notes s = [] := fun s => by
    rw [World.notes, shows.thread.frames, frames]
  have polls : proceedWith (.idlePoll p.reactor timeout) c.signal =
      idlePoll p.reactor timeout res := by
    rw [signal]
    rfl
  refine goes shows wait frames round timely polls ?_
  have told := shows.popped fs
  have fires : ∀ found, Phase p k.back b.notes
      { c with frames := fs, signal := .polled (.ok found), wait := c.wait } := fun found => by
    rw [wait]
    exact idles_on valid live spare (.fires (p := p) found)
  cases res with
  | ok found =>
    refine .pure told (.inr ?_)
    rw [quiet]
    exact fires found
  | error e =>
    unfold idlePoll
    dsimp only
    split
    · refine (push_does _).ends_bind told fun v₁ told₁ => Ends.get ?_
      obtain ⟨x, found, is⟩ := told₁.reactor
      rw [found, Option.getD_some, is.epoll]
      refine (poll_ends told₁ timeout).mono ?_
      rintro r u (⟨⟨res, rfl⟩, rfl⟩ | ⟨rfl, millis, t, rfl⟩)
      · rw [quiet]
        have phase := idles_on valid live spare (.polls (p := p) timeout res)
        rw [← wait] at phase
        exact .inr phase
      · rw [quiet]
        have phase := idles_on valid live spare (.waits (p := p) timeout (.done .null) millis t)
        exact .inr phase
    · refine Does.ends_bind (.log _ _) told fun v told => .pure told (.inr ?_)
      rw [quiet]
      exact fires []

omit shows round in
/-- The idle fiber gives control back, and will look again. -/
theorem rests (live : Live p (k.idling p none 1) b c)
    (frames : c.frames = p.resting k.idle) (wait : c.wait = none) (told : p.Depicts c w) :
    p.Ends w (do
        push (.idleReactor p.scheduler p.reactor)
        yieldTo .hold) fun r u =>
      r = .ok (.left .hold) ∧ Phase p k.back b.notes { u with signal := .left .hold } := by
  refine (push_does _).ends_bind told fun v told => ?_
  let c₁ : Scene := { c with frames := .idleReactor p.scheduler p.reactor :: c.frames }
  let k' : Bench := { k with begun := true }
  have floor : Floor c₁.toView k.idle [p.root, k.caller]
      (⟨k.idle, .exec, none, 1, none⟩ :: p.rootCell (some (.loopIdle (k.loop p) :: p.under)) ::
        k.callerCell p :: (k.pooled ++ b.crew p)) := live.floor.congr rfl rfl rfl
  obtain ⟨t, -, ok, left, floor, resumed⟩ := floor.handed .hold nofun
  have does := yieldTo_does (p := p) (c := c₁) ok
  rw [left] at does
  refine does.ends told ⟨rfl, ?_⟩
  have floor : Floor (c₁.followed t).toView p.root [k.caller]
      ((k'.looping p [] 0).known ++ b.crew p) := by
    refine (floor.perm ?_).congr rfl rfl rfl
    have frames : c₁.frames = .idleReactor p.scheduler p.reactor :: p.resting k.idle :=
      congrArg _ frames
    rw [frames]
    exact .cons _ (List.Perm.swap ..)
  have live' : Live p (k'.looping p [] 0) (b.seated (k'.looping p [] 0) b.spare)
      { c₁.followed t with signal := .left .hold } := by
    refine .of_store live.store ⟨rfl, rfl, rfl, rfl⟩ (floor.congr rfl rfl rfl)
      (Bench.looping_seniors (k := k') valid [] (List.forall_mem_nil _)) live.hand live.risen
      (Nat.le_of_eq ?_) (Nat.le_of_eq ?_) live.active live.stopping live.autoStop
    · rw [live.due]
      rfl
    · rw [live.lent]
      rfl
  exact .rested k' rfl valid rfl live' resumed rfl wait spare rfl

omit shows round in
/-- The tasks of fired handlers are queued, and the idle fiber gives control back. -/
theorem dispatches_rest (live : Live p (k.idling p none 1) b c)
    (frames : c.frames = p.resting k.idle) (wait : c.wait = none) (enough : 1 ≤ b.due)
    (found : List (Int × Event))
    (told : p.Depicts c w) :
    p.Ends w (do
        dispatch p.reactor found
        push (.idleReactor p.scheduler p.reactor)
        yieldTo .hold) fun r u =>
      r = .ok (.left .hold) ∧ Phase p k.back b.notes { u with signal := .left .hold } := by
  refine (dispatch_keeps found live.stock enough told).bind (fun a u v told kept => ?_)
    fun e u kept => ?_
  · obtain ⟨-, calm, b', stock, stays, notes⟩ := kept
    have live' := live.stays calm stock stays
    refine (rests valid (stays.spare spare) live' (calm.frames.trans frames)
      (calm.wait.trans wait) told).mono fun r u ended => ?_
    rw [notes] at ended
    exact ended
  · cases kept.1

omit valid round spare in
/-- The recurring timers that are due are owed another callback once they are fired. -/
theorem notes_fires (frames : c.frames = .idlePolled p.scheduler p.reactor :: p.resting k.idle)
    (s : Signal) :
    w.notes s = (((Timers.takeDue w.clock c.timers.heap c.timers.slots).callbacks.filter
      (·.2)).map fun x => .timer x.1).map .owed := by
  obtain ⟨x, found, is⟩ := shows.reactor
  have same : w.recurringDue p.reactor =
      ((Timers.takeDue w.clock c.timers.heap c.timers.slots).callbacks.filter (·.2)).map (·.1) := by
    rw [World.recurringDue, found, Option.getD_some, is.timers, shows.timersOf]
  rw [World.notes, shows.thread.frames, frames]
  dsimp only
  rw [same, List.map_map, List.map_map]
  rfl

/-- Due callbacks and the tasks of fired handlers are queued, and the run loop looks for work. -/
theorem fires_goes {found : List (Int × Event)} (live : Live p (k.idling p none 1) b c)
    (frames : c.frames = .idlePolled p.scheduler p.reactor :: p.resting k.idle)
    (signal : c.signal = .polled (.ok found)) (wait : c.wait = none) (timely : w'.Timely) :
    ∃ c', p.Depicts c' w' ∧ Phase p k.back (w.notes w'.thread.signal ++ b.notes) c' := by
  let due := (Timers.takeDue w.clock c.timers.heap c.timers.slots).callbacks
  have fires : proceedWith (.idlePolled p.scheduler p.reactor) c.signal =
      idlePolled p.scheduler p.reactor found := by
    rw [signal]
    rfl
  refine goes shows wait frames round timely fires ?_
  have told := shows.popped (p.resting k.idle)
  let c₀ : Scene := { c with frames := p.resting k.idle }
  have live₀ : Live p (k.idling p none 1) b c₀ := live.retold (p.resting k.idle) c.signal c.reports
  have enough : 1 ≤ b.due := by
    rw [live.due]
    exact Nat.le_add_left 1 3
  refine Ends.get ?_
  obtain ⟨x, there, is⟩ := told.reactor
  rw [there, Option.getD_some, is.timers]
  refine (expire_ends live₀.stock enough told).bind (fun callbacks u v told₁ expired => ?_)
    fun e u expired => ?_
  · obtain bad | ⟨m, same, rfl, kept, last, inherits, owed, script⟩ := expired
    · cases bad
    obtain rfl := Except.ok.inj same
    let b₁ := b.owing ((due.filter (·.2)).map fun x => .timer x.1)
    let c₁ : Scene :=
      { c₀ with
        timers := m
        shared := { c.shared with
          queue := c.shared.queue ++ (due.map (·.1)).map fun x => ⟨.callback (.timer x), none⟩ } }
    have live₁ : Live p (k.idling p none 1) b₁ c₁ :=
      { live₀ with stock := live₀.stock.expires kept last inherits owed script }
    have queued : ∀ v, p.Depicts c₁ v → p.Ends v (do
        dispatch p.reactor found
        push (.idleReactor p.scheduler p.reactor)
        yieldTo .hold) fun r u => ending r = .raised .instantOverflow ∨
          Phase p k.back (w.notes (ending r) ++ b.notes) { u with signal := ending r } := by
      intro v told₂
      have ends := dispatches_rest (b := b₁) (c := c₁) valid spare live₁ rfl wait enough found told₂
      refine ends.mono fun r u ended => ?_
      obtain ⟨rfl, phase⟩ := ended
      rw [notes_fires shows frames]
      exact .inr phase
    split
    · exact (Does.log _ _).ends_bind told₁ fun v told₂ =>
        (enqueue_does _).ends_bind told₂ fun v told₃ => queued v told₃
    · next none =>
      have empty : due.map (·.1) = [] := by
        cases list : due.map (·.1) with
        | nil => rfl
        | cons first rest =>
          refine absurd ?_ none
          change (!(due.map (·.1)).isEmpty) = true
          rw [list]
          rfl
      refine queued v ?_
      have same : c₁ = { c₀ with timers := m } := by
        simp only [c₁, empty, List.map_nil, List.append_nil]
        rfl
      rw [same]
      exact told₁
  · obtain late | ⟨m, bad, -⟩ := expired
    · obtain rfl := Except.error.inj late
      exact .inl rfl
    · cases bad

end Idling

end Station

end Fibers.Script
