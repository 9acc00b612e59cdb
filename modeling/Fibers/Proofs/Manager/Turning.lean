import Fibers.Proofs.Manager.Phases

/-!
The rounds of the run loop. It takes the oldest entry of the queue and resumes its fiber, or a
callback fiber for it; with nothing to take it resumes the idle fiber. When a fiber comes back, its
entry is accounted for.
-/

namespace Fibers.Script

namespace Station

variable {p : Station} {b : Books} {c u : Scene} {w w' : World} {back : List Frame} {k : Bench}
  {id : FiberId} {d : Datum} {usable : Nat} {q : TaskQueue Body} {worker : Option Nat}
  {body : Body} {front : Frame}

/-- The root fiber makes its idle fiber and enters the run loop. -/
theorem startRoot_does (mappable : Mappable p.config.stackSize usable)
    (room : p.config.pool * 8 < rowLimit) :
    p.Does c (startBody (.root p.scheduler)) (.done .null)
      { c.withFiber (.idle p.scheduler) usable true with
        handles := c.handles + 1
        frames := .loop ⟨p.scheduler, 0, ⟨c.fibers.lastId + 1⟩, []⟩ ::
          .release [.scheduler p.scheduler] :: c.frames } := by
  refine Does.get fun w shows => ?_
  rw [shows.alive]
  refine retain_scheduler_does.bind ((push_does _).bind ?_)
  refine Does.bind (updateThread_does fun _ is => { is with scheduler := rfl })
    (Does.schedulerRecord fun x is => ?_)
  rw [is.config]
  refine (Does.log _ _).bind ((makeFiber_does mappable _ _).bind ?_)
  exact (push_does _).bind ((allocate_does room).bind (.pure _))

/-- The root fiber makes its idle fiber, and comes to its first turn. -/
theorem opening_does {cells : List Cell} (mappable : Mappable p.config.stackSize usable)
    (room : p.config.pool * 8 < rowLimit)
    (floor : Floor c.toView p.root [k.caller]
      (⟨p.root, .exec, some (.root p.scheduler), 2, none⟩ :: k.callerCell p :: cells)) :
    ∃ (k' : Bench) (u : Scene), k' = { k with idle := k'.idle, begun := false, pooled := [] } ∧
      p.Does { c with frames := [] } (startFiber p.root) (.done .null) u ∧
      { c with handles := c.handles + 1 : Scene }.Steady u ∧
      u.frames = .loop (k'.loop p) :: p.under ∧
      Floor u.toView p.root [k.caller] (p.rootCell none :: (k'.cells p ++ cells)) := by
  obtain ⟨entry, floor⟩ := floor.begun
  let begun : Scene :=
    { c with fibers := (c.fibers.takeEntry p.root).1, frames := [.fiberBody p.root] }
  let idle : FiberId := ⟨begun.fibers.lastId + 1⟩
  let made : Scene :=
    { begun.withFiber (.idle p.scheduler) usable true with
      handles := c.handles + 1
      frames := .loop ⟨p.scheduler, 0, idle, []⟩ :: p.under }
  have does : p.Does { c with frames := [] } (startFiber p.root) (.done .null) made :=
    startFiber_does entry (startRoot_does (c := begun) mappable room)
  have floor : Floor begun.toView p.root [k.caller] _ := floor.congr rfl rfl rfl
  have created := floor.created (.idle p.scheduler) usable true
  refine ⟨{ k with idle := idle, begun := false, pooled := [] }, made, rfl, does,
    ⟨rfl, rfl, rfl, rfl, rfl, rfl, rfl⟩, rfl, (created.perm ?_).congr rfl rfl rfl⟩
  exact (List.Perm.swap ..).trans (List.Perm.cons _ (List.Perm.swap ..))

theorem opening_goes (mappable : Mappable p.config.stackSize usable)
    (room : p.config.pool * 8 < rowLimit) (shows : p.Depicts c w)
    (live : Live p
      ⟨[⟨p.root, .exec, some (.root p.scheduler), 2, none⟩, k.callerCell p], p.root, [k.caller], [],
        [], 2, 1, 0⟩ b c)
    (frames : c.frames = [.fiberStart p.root]) (signal : c.signal = .done d) (wait : c.wait = none)
    (spare : ∀ id, b.spare id = 0) (round : w.round = some w') :
    ∃ c', p.Depicts c' w' ∧ Phase p k.back (w.notes w'.thread.signal ++ b.notes) c' := by
  obtain ⟨k', u, same, does, steady, entered, floor⟩ := opening_does mappable room live.floor
  generalize k'.idle = idle at same
  subst same
  have quiet : w.notes w'.thread.signal = [] := by
    obtain ⟨⟨r, found, _, entry, _⟩, _⟩ := live.floor.holds _ List.mem_cons_self
    rw [World.notes, shows.thread.frames, frames]
    simp only [World.bodyOf, shows.fibers, found, Option.bind_some, entry]
    rfl
  refine goes_quiet shows wait frames round quiet (by rw [signal]; rfl) does ?_
  let k' : Bench := { k with idle := idle, begun := false, pooled := [] }
  have valid : k'.Valid := List.forall_mem_nil _
  have live' : Live p (k'.looping p [] 0) (b.seated (k'.looping p [] 0) b.spare)
      { u with signal := .done .null } := by
    refine .of_store live.store ⟨?_, steady.table, steady.timers, steady.names⟩
      (floor.congr rfl rfl rfl) (Bench.looping_seniors valid [] (List.forall_mem_nil _)) live.hand
      live.risen ?_ ?_ ?_ ?_ ?_
    · rw [steady.shared]
    · rw [live.due, steady.handles]
      change 3 + c.handles ≤ 2 + (c.handles + 1)
      omega
    · rw [live.lent, steady.held]
      exact Nat.le_refl _
    · rw [steady.shared]
      exact live.active
    · rw [steady.shared]
      exact live.stopping
    · rw [steady.shared]
      exact live.autoStop
  exact .turning k' rfl valid live' entered ⟨_, rfl⟩ (steady.wait.trans wait) spare rfl

section Takes

variable {st : FiberState} {e : Option Body} {n : Nat} {fs : List Frame} {cells : List Cell}

/-- A turn that takes a fiber resumes it. -/
theorem takesFiber_does (pin : worker = none ∨ worker = some 0)
    (queue : c.shared.queue = ⟨.fiber id, worker⟩ :: q) (resumable : st.isResumable = true)
    (floor : Floor c.toView p.root [k.caller]
      (p.rootCell none :: ⟨id, st, e, n, some fs⟩ :: (k.cells p ++ cells))) :
    ∃ u, p.Does { c with frames := p.under } (turn (k.loop p)) (.done .null) u ∧
      (c.taking q).Steady u ∧ u.frames = fs ∧
      Floor u.toView id [p.root, k.caller]
        (⟨id, .exec, e, n, none⟩ :: p.rootCell (some (.loopFiber (k.loop p) id :: p.under)) ::
          (k.cells p ++ cells)) := by
  let v : Scene := { c.taking q with frames := .loopFiber (k.loop p) id :: p.under }
  have state : c.fibers.state id = st := (floor.holds ⟨id, st, e, n, some fs⟩ (by simp)).state
  have eligible : TaskQueue.eligible (fun id => c.fibers.state id == .exec) 0
      ⟨Task.fiber (β := Body) id, worker⟩ = true := by
    refine eligible_of_pin pin fun j same => ?_
    obtain rfl := Task.fiber.inj same
    rw [state]
    cases st <;> first | rfl | cases resumable
  have floor : Floor v.toView p.root [k.caller] _ := floor.congr rfl rfl rfl
  obtain ⟨t, does, floor, entered⟩ := resumes_does floor resumable
  refine ⟨v.followed t, ?_, ⟨rfl, rfl, rfl, rfl, rfl, rfl, rfl⟩, entered, floor⟩
  refine (takeNext_does (c := { c with frames := p.under }) queue eligible).bind
    (Does.get fun x shows => ?_)
  rw [shows.fibers, if_pos (state.symm ▸ resumable)]
  exact (push_does _).bind does

/-- A turn that takes a callback makes a fiber for it if none was kept. -/
theorem makesCallback_does (pin : worker = none ∨ worker = some 0)
    (mappable : Mappable p.config.stackSize usable) (kept : k.pooled = [])
    (queue : c.shared.queue = ⟨.callback body, worker⟩ :: q)
    (floor : Floor c.toView p.root [k.caller] (p.rootCell none :: (k.cells p ++ cells))) :
    ∃ (id : FiberId) (u : Scene),
      p.Does { c with frames := p.under } (turn (k.loop p)) (.done .null) u ∧
      (c.taking q).Steady u ∧ u.frames = [.fiberStart id] ∧
      Floor u.toView id [p.root, k.caller]
        (⟨id, .exec, some body, 1, none⟩ ::
          p.rootCell (some (.loopCallback (k.loop p) id :: p.under)) :: (k.cells p ++ cells)) := by
  have eligible : TaskQueue.eligible (fun id => c.fibers.state id == .exec) 0
      ⟨Task.callback body, worker⟩ = true := eligible_of_pin pin nofun
  let id : FiberId := ⟨c.fibers.lastId + 1⟩
  let taken : Scene := { c.taking q with frames := p.under }
  let v : Scene :=
    { taken.withFiber body usable true with frames := .loopCallback (k.loop p) id :: p.under }
  have created := floor.created body usable true
  have floor : Floor v.toView p.root [k.caller] _ :=
    (created.perm (List.Perm.swap ..)).congr rfl rfl rfl
  obtain ⟨t, does, floor, entered⟩ := resumes_does floor rfl
  refine ⟨id, v.followed t, ?_, ⟨rfl, rfl, rfl, rfl, rfl, rfl, rfl⟩, entered, floor⟩
  refine (takeNext_does (c := { c with frames := p.under }) queue eligible).bind ?_
  change p.Does _ (turnCallback (k.loop p) body) _ _
  rw [turnCallback, Bench.loop, kept]
  refine Does.schedulerRecord fun x is => ?_
  rw [is.config]
  refine (makeFiber_does (c := taken) mappable body true).bind ((push_does _).bind ?_)
  have loop : (⟨p.scheduler, 0, k.idle, ([] : List Cell).map Cell.id⟩ : Loop) = k.loop p := by
    rw [Bench.loop, kept]
  rw [loop]
  exact does

/-- A turn that takes a callback runs it on the fiber that was kept last. -/
theorem reusesFiber_does (pin : worker = none ∨ worker = some 0) {x : Cell} {pooled : List Cell}
    (kept : k.pooled = x :: pooled) (ended : x.Ended)
    (queue : c.shared.queue = ⟨.callback body, worker⟩ :: q)
    (floor : Floor c.toView p.root [k.caller] (p.rootCell none :: (k.cells p ++ cells))) :
    ∃ u, p.Does { c with frames := p.under } (turn (k.loop p)) (.done .null) u ∧
      (c.taking q).Steady u ∧ u.frames = [.fiberStart x.id] ∧
      Floor u.toView x.id [p.root, k.caller]
        (⟨x.id, .exec, some body, 1, none⟩ ::
          p.rootCell (some (.loopCallback (({ k with pooled := pooled } : Bench).loop p) x.id ::
            p.under)) :: (({ k with pooled := pooled } : Bench).cells p ++ cells)) := by
  have eligible : TaskQueue.eligible (fun id => c.fibers.state id == .exec) 0
      ⟨Task.callback body, worker⟩ = true := eligible_of_pin pin nofun
  let k' : Bench := { k with pooled := pooled }
  obtain ⟨id, st, e, n, fs⟩ := x
  obtain ⟨terminal, rfl, rfl⟩ := ended
  have order : (p.rootCell none :: (k.cells p ++ cells)).Perm
      (⟨id, st, none, 1, fs⟩ :: p.rootCell none :: (k'.cells p ++ cells)) := by
    have own : k.cells p = k.callerCell p :: k.idleCell p :: ⟨id, st, none, 1, fs⟩ :: pooled := by
      rw [Bench.cells, kept]
    rw [own]
    change ([p.rootCell none, k.callerCell p, k.idleCell p] ++ _).Perm _
    exact List.perm_middle
  have floor : Floor c.toView p.root [k.caller] _ := floor.perm order
  obtain ⟨reset, restarted⟩ := floor.restarted terminal body
  obtain ⟨⟨r, found, _, none, _⟩, _⟩ := floor.holds ⟨id, st, none, 1, fs⟩ (by simp)
  let pushed : Scene := { c.taking q with frames := .loopCallback (k'.loop p) id :: p.under }
  let v : Scene :=
    { pushed with
      fibers := c.fibers.restarted id body
      saved := c.saved.put id [.fiberStart id] }
  have floor : Floor v.toView p.root [k.caller] _ :=
    (restarted.perm (List.Perm.swap ..)).congr rfl rfl rfl
  obtain ⟨t, does, floor, entered⟩ := resumes_does (k := k') floor rfl
  refine ⟨v.followed t, ?_, ⟨rfl, rfl, rfl, rfl, rfl, rfl, rfl⟩, entered, floor⟩
  refine (takeNext_does (c := { c with frames := p.under }) queue eligible).bind ?_
  change p.Does _ (turnCallback (k.loop p) body) _ _
  rw [turnCallback, Bench.loop, kept]
  refine (push_does _).bind (Does.bind (resetFiber_does (c := pushed) reset ?_) does)
  intro q b found' some
  have same : q = r := Option.some.inj (found'.symm.trans found)
  rw [same, none] at some
  cases some

/-- A turn that takes a callback runs it on a fiber that was kept, or makes one. -/
theorem takesCallback_does (pin : worker = none ∨ worker = some 0)
    (mappable : Mappable p.config.stackSize usable) (valid : k.Valid)
    (queue : c.shared.queue = ⟨.callback body, worker⟩ :: q)
    (floor : Floor c.toView p.root [k.caller] (p.rootCell none :: (k.cells p ++ cells))) :
    ∃ (k' : Bench) (id : FiberId) (u : Scene), k'.Valid ∧ k' = { k with pooled := k'.pooled } ∧
      p.Does { c with frames := p.under } (turn (k.loop p)) (.done .null) u ∧
      (c.taking q).Steady u ∧ u.frames = [.fiberStart id] ∧
      Floor u.toView id [p.root, k.caller]
        (⟨id, .exec, some body, 1, none⟩ ::
          p.rootCell (some (.loopCallback (k'.loop p) id :: p.under)) ::
            (k'.cells p ++ cells)) := by
  cases kept : k.pooled with
  | nil =>
    obtain ⟨id, u, made⟩ := makesCallback_does pin mappable kept queue floor
    exact ⟨k, id, u, valid, rfl, made⟩
  | cons x pooled =>
    have ended : x.Ended := valid x (kept ▸ List.mem_cons_self)
    obtain ⟨u, reused⟩ := reusesFiber_does pin kept ended queue floor
    exact ⟨{ k with pooled := pooled }, x.id, u,
      fun y mem => valid y (kept ▸ List.mem_cons_of_mem x mem), rfl, reused⟩

/-- A turn that finds nothing to take resumes the idle fiber, which begins or looks for work. -/
theorem takesNothing_does (queue : c.shared.queue = [])
    (floor : Floor c.toView p.root [k.caller] (p.rootCell none :: (k.cells p ++ cells))) :
    ∃ e u, p.Does { c with frames := p.under } (turn (k.loop p)) (.done .null) u ∧
      Idling p k.idle u.frames (.done .null) none e k.begun.toNat ∧
      Scene.Steady { c with shared := c.shared.enterIdle } u ∧
      Floor u.toView k.idle [p.root, k.caller] ((k.idling p e k.begun.toNat).known ++ cells) := by
  obtain ⟨st, e, fs, cell, resumable, idles⟩ := k.idles p
  let v : Scene :=
    { c with
      shared := c.shared.enterIdle
      frames := .loopIdle (k.loop p) :: p.under }
  have floor : Floor v.toView p.root [k.caller]
      (p.rootCell none :: ⟨k.idle, st, e, 1, some fs⟩ :: k.callerCell p ::
        (k.pooled ++ cells)) := by
    rw [← cell]
    exact (floor.perm (.cons _ (List.Perm.swap ..))).congr rfl rfl rfl
  have state : c.fibers.state k.idle = st :=
    (floor.holds ⟨k.idle, st, e, 1, some fs⟩ (by simp)).state
  have young : ¬(c.fibers.state (k.loop p).idleFiber).isTerminal = true := by
    change ¬(c.fibers.state k.idle).isTerminal = true
    rw [state]
    cases st <;> first | exact Bool.false_ne_true | cases resumable
  obtain ⟨t, does, floor, entered⟩ := resumes_does floor resumable
  refine ⟨e, v.followed t, ?_, entered.symm ▸ idles, ⟨rfl, rfl, rfl, rfl, rfl, rfl, rfl⟩, floor⟩
  refine (takeNext_none_does (c := { c with frames := p.under }) queue).bind
    (Does.get fun x shows => ?_)
  rw [shows.fibers, if_neg young]
  exact (updateShared_does _).bind ((push_does _).bind does)

end Takes

/-- The run loop has resumed the fiber of a task. -/
theorem tasked {v : Scene} {entry : Option Body} (valid : k.Valid)
    (accounts : front = .loopFiber (k.loop p) id ∨ front = .loopCallback (k.loop p) id)
    (store : Store p b v) (same : v.Steady u)
    (floor : Floor u.toView id [p.root, k.caller]
      (⟨id, .exec, entry, 1, none⟩ :: p.rootCell (some (front :: p.under)) ::
        (k.cells p ++ b.crew p)))
    {hand : List (Task Body)} {risen : List FiberId}
    (doing : Doing p id u.frames u.signal entry hand risen none) (has : b.hand = hand)
    (tells : b.risen = risen) (due : b.due = 3 + k.begun.toNat) (lent : b.lent = 1 + k.begun.toNat)
    (active : v.shared.active = 1) (stopping : v.shared.stopping = true)
    (autoStop : v.shared.autoStop = true) (wait : v.wait = none) (spare : ∀ id, b.spare id = 0) :
    Phase p k.back b.notes u := by
  let s := k.tasking p front id entry hand risen 0
  have live : Live p s (b.seated s b.spare) u := by
    refine .of_store store same.alike floor (Bench.tasking_seniors valid front id entry _ _ 0)
      has tells ?_ ?_ ?_ ?_ ?_
    · rw [same.handles, due]
      exact Nat.le_refl _
    · rw [same.held, lent]
      exact Nat.le_refl _
    · rw [same.shared]
      exact active
    · rw [same.shared, stopping]
    · rw [same.shared, autoStop]
  exact .tasking k rfl valid accounts doing live (same.wait.trans wait)
    (fun j => (spare j).trans (if_neg nofun).symm) nofun rfl

section Turn

variable (shows : p.Depicts c w) (valid : k.Valid) (live : Live p (k.looping p [] 0) b c)
  (frames : c.frames = .loop (k.loop p) :: p.under) (signal : c.signal = .done d)
  (wait : c.wait = none) (spare : ∀ id, b.spare id = 0) (round : w.round = some w')
include shows valid live frames signal wait spare round

/-- A turn that takes a fiber. -/
theorem takesFiber_goes (queue : c.shared.queue = ⟨.fiber id, worker⟩ :: q) :
    ∃ c', p.Depicts c' w' ∧ Phase p k.back (w.notes w'.thread.signal ++ b.notes) c' := by
  obtain ⟨rest, tasks, store⟩ := live.store.takes_fiber queue live.hand
  have store : Store p (b.taken id rest) (c.taking q) := store
  obtain ⟨st, e, fs, cell, resumable, doing⟩ := (b.post id).doing p id 1 .null
  have crew : (b.crew p).Perm (⟨id, st, e, 1, some fs⟩ :: (b.taken id rest).crew p) := by
    have crew := Books.taken_crew (p := p) tasks
    rw [spare id, cell] at crew
    exact crew
  have floor : Floor c.toView p.root [k.caller]
      (p.rootCell none :: ⟨id, st, e, 1, some fs⟩ :: (k.cells p ++ (b.taken id rest).crew p)) :=
    live.floor.perm (((crew.append_left _).trans List.perm_middle).cons _)
  have pin := live.stock.pinned _ (queue ▸ List.mem_cons_self)
  obtain ⟨u, turns, steady, entered, floor⟩ := takesFiber_does pin queue resumable floor
  refine goes_quiet shows wait frames round ?_ (by rw [signal]; rfl) turns ?_
  · rw [World.notes, shows.thread.frames, frames]
  · have active : c.shared.active + 1 = 1 := congrArg (· + 1) live.active
    refine tasked (b := b.taken id rest) valid (.inl rfl) store { steady with }
      (floor.congr rfl rfl rfl) (entered.symm ▸ doing) rfl ?_
      live.due live.lent active live.stopping live.autoStop wait spare
    rw [Books.taken, live.risen]
    exact List.append_nil _

/-- A turn that takes a callback. -/
theorem takesCallback_goes (mappable : Mappable p.config.stackSize usable)
    (queue : c.shared.queue = ⟨.callback body, worker⟩ :: q) :
    ∃ c', p.Depicts c' w' ∧ Phase p k.back (w.notes w'.thread.signal ++ b.notes) c' := by
  have store : Store p { b with hand := [.callback body] } (c.taking q) :=
    live.store.takes_callback queue live.hand
  have pin := live.stock.pinned _ (queue ▸ List.mem_cons_self)
  obtain ⟨k', id, u, valid', same, turns, steady, entered, floor⟩ :=
    takesCallback_does pin mappable valid queue live.floor
  refine goes_quiet shows wait frames round ?_ (by rw [signal]; rfl) turns ?_
  · rw [World.notes, shows.thread.frames, frames]
  · have active : c.shared.active + 1 = 1 := congrArg (· + 1) live.active
    generalize k'.pooled = pooled at same
    subst same
    exact tasked (k := { k with pooled := pooled }) (b := { b with hand := [.callback body] })
      valid' (.inr rfl) store { steady with } (floor.congr rfl rfl rfl)
      (entered.symm ▸ .begins body .null) rfl live.risen live.due live.lent active live.stopping
      live.autoStop wait spare

/-- A turn that finds nothing to take. -/
theorem takesNothing_goes (queue : c.shared.queue = []) :
    ∃ c', p.Depicts c' w' ∧ Phase p k.back (w.notes w'.thread.signal ++ b.notes) c' := by
  obtain ⟨e, u, turns, idles, steady, floor⟩ := takesNothing_does queue live.floor
  refine goes_quiet shows wait frames round ?_ (by rw [signal]; rfl) turns ?_
  · rw [World.notes, shows.thread.frames, frames]
  · let s := k.idling p e k.begun.toNat
    have live' : Live p s (b.seated s b.spare) { u with signal := .done .null } := by
      refine .of_store live.store ⟨?_, steady.table, steady.timers, steady.names⟩
        (floor.congr rfl rfl rfl) (Bench.idling_seniors valid e _) live.hand live.risen
        ?_ ?_ ?_ ?_ ?_
      · rw [steady.shared]
        rfl
      · rw [live.due, steady.handles]
        exact Nat.le_refl _
      · rw [live.lent, steady.held]
        exact Nat.le_refl _
      · rw [steady.shared]
        exact live.active
      · rw [steady.shared]
        exact live.stopping
      · rw [steady.shared]
        exact live.autoStop
    have idling : Idling p k.idle u.frames (.done .null) u.wait e k.begun.toNat := by
      rw [steady.wait, wait]
      exact idles
    exact .idling k rfl valid idling live' spare rfl

omit spare in
/-- A turn of the run loop. -/
theorem turning_goes (mappable : Mappable p.config.stackSize usable)
    (spare : ∀ id, b.spare id = 0) :
    ∃ c', p.Depicts c' w' ∧ Phase p k.back (w.notes w'.thread.signal ++ b.notes) c' := by
  cases queue : c.shared.queue with
  | nil => exact takesNothing_goes shows valid live frames signal wait spare round queue
  | cons e q =>
    obtain ⟨_ | body, worker⟩ := e
    · exact takesFiber_goes shows valid live frames signal wait spare round queue
    · exact takesCallback_goes shows valid live frames signal wait spare round mappable queue

end Turn

end Station

end Fibers.Script
