import Fibers.Proofs.Scheduler.Loop

/-!
The end of the run loop. Once the queue is empty the idle fiber is entered; it finds that the loop
may end, and ends. The loop then lets go of the fibers that it kept, and the stop that resumed the
root fiber goes on.
-/

namespace Fibers.Script

variable {c : Site} {v : View} {id idle caller : FiberId} {chain family pool : List FiberId}
  {cells pooled done : List Cell} {base outer fs : List Frame} {d : Datum} {n : Nat}
  {entry : Option Body}

/-- A turn that finds nothing to take. -/
theorem turnIdle_runs (frames : v.frames = .loop (c.loop idle pool) :: base)
    (signal : v.signal = .done d) (empty : v.shared.queue = [])
    (floor : Floor v c.root chain
      (⟨c.root, .exec, none, 2, none⟩ :: ⟨idle, .init, entry, n, some fs⟩ :: cells)) :
    ∃ u, Entered c chain (.loopIdle (c.loop idle pool)) base idle entry n fs cells
      v.shared.enterIdle v u := by
  have state : v.fibers.state idle = .init :=
    (floor.holds ⟨idle, .init, entry, n, some fs⟩ (by simp)).state
  have young : ¬(v.fibers.state (c.loop idle pool).idleFiber).isTerminal = true := by
    change ¬(v.fibers.state idle).isTerminal = true
    rw [state]
    exact Bool.false_ne_true
  let w : View := { v with shared := v.shared.enterIdle }
  refine Entered.of_resume (w := w) frames (fun does => ?_) signal rfl (floor.congr rfl rfl rfl)
    (.inl rfl) rfl rfl
  refine (takeNext_none_does (c := c) (v := { v with frames := base }) empty).bind
    (Does.get fun x shows => ?_)
  rw [shows.fibers, if_neg young]
  exact (updateShared_does _).bind ((push_does _).bind does)

/-- The idle fiber of a scheduler that parks begins. -/
theorem startIdle_does :
    Does c v (startIdle c.scheduler) (.done .null)
      { v with
        handles := v.handles + 1
        frames := .idleParking c.scheduler :: .release [.scheduler c.scheduler] :: v.frames } := by
  refine Does.get fun w shows => ?_
  have alive : ¬(!w.schedulers.contains c.scheduler) = true := by
    obtain ⟨x, found, _⟩ := shows.record
    rw [Table.contains, found]
    exact Bool.false_ne_true
  rw [if_neg alive]
  refine Does.record fun x is => ?_
  obtain ⟨place, hooks⟩ := is.hooks
  rw [hooks]
  exact (retain_scheduler_does.bind (.pure ())).bind
    ((push_does _).bind ((push_does _).bind (.pure _)))

/-- The run loops may end when a stop was asked for and nothing is left to run. -/
theorem Shows.isStopping {w : World} (h : Shows c v w) :
    w.isStopping c.scheduler = v.shared.isDone := by
  obtain ⟨x, found, is⟩ := h.record
  obtain ⟨place, hooks⟩ := is.hooks
  unfold World.isStopping
  rw [found]
  dsimp only
  rw [hooks, is.shared]

/-- The idle fiber finds that the run loop may end. -/
theorem idleParking_does (finished : v.shared.isDone = true) :
    Does c v (idleParking c.scheduler) (.done .null) v := by
  refine Does.get fun w shows => ?_
  rw [shows.isStopping, finished]
  exact .pure _

/-- The idle fiber from its beginning to its end. -/
theorem idle_ends (finished : v.shared.isDone = true) (held : 1 ≤ v.handles)
    (frames : v.frames = [.fiberStart id]) (signal : v.signal = .done d)
    (floor : Floor v id (c.root :: chain)
      (⟨id, .exec, some (.idle c.scheduler), n, none⟩ :: ⟨c.root, .hold, none, 2, some outer⟩ ::
        cells)) :
    ∃ u, Runs c v u ∧
      Floor u c.root chain
        (⟨c.root, .exec, none, 2, none⟩ :: ⟨id, .term, none, n, some [.fiberEnd]⟩ :: cells) ∧
      u.frames = outer ∧ u.signal = .left .term ∧ u.shared = v.shared ∧ u.handles = v.handles ∧
      u.reports = v.reports := by
  obtain ⟨entry, floor⟩ := floor.begun
  let waits : View :=
    { v with
      fibers := (v.fibers.takeEntry id).1
      handles := v.handles + 1
      frames := [.idleParking c.scheduler, .release [.scheduler c.scheduler], .fiberBody id]
      signal := .done .null }
  have first : Runs c v waits := by
    have goes : proceedWith (.fiberStart id) v.signal = startFiber id := by
      rw [signal]
      rfl
    exact .of_act frames goes (startFiber_does (v := { v with frames := [] }) entry startIdle_does)
  let found : View :=
    { waits with frames := [.release [.scheduler c.scheduler], .fiberBody id] }
  have second : Runs c waits found := .of_does rfl (idleParking_does finished)
  let free : View := { found with handles := v.handles, frames := [.fiberBody id] }
  have third : Runs c found free :=
    .of_does rfl ((release_scheduler_does (Nat.succ_lt_succ held)).bind (.pure _))
  have floor : Floor free id (c.root :: chain) _ := floor.congr rfl rfl rfl
  obtain ⟨u, fourth, rest⟩ := finish_runs floor rfl rfl
  exact ⟨u, first.trans (second.trans (third.trans fourth)), rest⟩

variable {a : FiberId}

theorem Cell.Ended.resting {x : Cell} (h : x.Ended) : x.state ≠ .exec ∧ x.state ≠ .hold := by
  constructor
  · intro e
    have state := h.state
    rw [e] at state
    cases state
  · intro e
    have state := h.state
    rw [e] at state
    cases state

/-- Fibers that have ended are let go of one after the other. -/
theorem Floor.released_all {gone : List Cell} (h : Floor v a chain (gone ++ cells))
    (ended : ∀ x ∈ gone, x.Ended) :
    Floor ((gone.map Cell.id).foldl View.released v) a chain cells := by
  induction gone generalizing v with
  | nil => exact h
  | cons x gone ih =>
    have rests := (ended x List.mem_cons_self).resting
    exact ih (h.released rests.1 rests.2) fun y mem => ended y (List.mem_cons_of_mem x mem)

theorem View.released_all_eq (ids : List FiberId) (v v' : View) (fibers : v'.fibers = v.fibers)
    (saved : v'.saved = v.saved) :
    ids.foldl View.released v' =
      { v' with
        fibers := (ids.foldl View.released v).fibers
        saved := (ids.foldl View.released v).saved } := by
  induction ids generalizing v v' with
  | nil =>
    rw [List.foldl_nil, List.foldl_nil, ← fibers, ← saved]
  | cons id ids ih =>
    have first := View.released_eq id v v' fibers saved
    rw [List.foldl_cons, List.foldl_cons, ih (v.released id) (v'.released id) (by rw [first])
      (by rw [first]), first]

/-- The turn after the idle fiber has ended is the last one. -/
theorem lastTurn_runs (frames : v.frames = .loop (c.loop idle (pooled.map Cell.id)) :: base)
    (signal : v.signal = .done d) (empty : v.shared.queue = [])
    (kept : ∀ x ∈ pooled, x.Ended)
    (floor : Floor v c.root chain
      (⟨c.root, .exec, none, 2, none⟩ :: ⟨idle, .term, none, 1, some [.fiberEnd]⟩ ::
        (pooled ++ cells))) :
    ∃ u, Runs c v u ∧ Floor u c.root chain (⟨c.root, .exec, none, 2, none⟩ :: cells) ∧
      u.frames = base ∧ u.signal = .done .null ∧ u.shared = v.shared ∧ u.handles = v.handles ∧
      u.reports = v.reports := by
  let idleCell : Cell := ⟨idle, .term, none, 1, some [.fiberEnd]⟩
  let gone : List Cell := (idleCell :: pooled).reverse
  have state : v.fibers.state idle = .term := (floor.holds idleCell (by simp [idleCell])).state
  have old : (v.fibers.state (c.loop idle (pooled.map Cell.id)).idleFiber).isTerminal = true := by
    change (v.fibers.state idle).isTerminal = true
    rw [state]
    rfl
  have ended : ∀ x ∈ gone, x.Ended := by
    intro x mem
    rcases List.mem_cons.mp (List.mem_reverse.mp mem) with rfl | mem
    · exact ⟨rfl, rfl, rfl⟩
    · exact kept x mem
  have order : Floor v c.root chain (gone ++ (⟨c.root, .exec, none, 2, none⟩ :: cells)) := by
    have behind : (idleCell :: pooled ++ ⟨c.root, .exec, none, 2, none⟩ :: cells).Perm
        (⟨c.root, .exec, none, 2, none⟩ :: (idleCell :: pooled ++ cells)) := List.perm_middle
    exact floor.perm (behind.symm.trans ((List.reverse_perm _).symm.append_right _))
  have handles : (c.loop idle (pooled.map Cell.id)).handles = (gone.map Cell.id).map .fiber := by
    simp [Loop.handles, Site.loop, gone, idleCell]
  have held : ∀ id ∈ gone.map Cell.id, ∀ r, v.fibers.get? id = some r → r.entry = none := by
    intro id mem r found
    obtain ⟨x, member, rfl⟩ := List.mem_map.mp mem
    obtain ⟨⟨q, found', _, entry, _⟩, _⟩ := order.holds x (List.mem_append_left _ member)
    rw [Option.some.inj (found.symm.trans found'), entry, (ended x member).entry]
  let u : View :=
    { v with
      fibers := ((gone.map Cell.id).foldl View.released v).fibers
      saved := ((gone.map Cell.id).foldl View.released v).saved
      frames := base
      signal := .done .null }
  have free : Does c { v with frames := base }
      (release (c.loop idle (pooled.map Cell.id)).handles) () { u with signal := v.signal } := by
    have free := release_fibers_does (c := c) (v := { v with frames := base }) _ held
    rw [View.released_all_eq _ v { v with frames := base } rfl rfl, ← handles] at free
    exact free
  have does : Does c { v with frames := base } (turn (c.loop idle (pooled.map Cell.id)))
      (.done .null) { u with signal := v.signal } := by
    refine (takeNext_none_does (c := c) (v := { v with frames := base }) empty).bind
      (Does.get fun x shows => ?_)
    rw [shows.fibers, if_pos old]
    exact (Does.log _ _).bind (free.bind (.pure _))
  have goes : proceedWith (.loop (c.loop idle (pooled.map Cell.id))) v.signal =
      turn (c.loop idle (pooled.map Cell.id)) := by
    rw [signal]
    rfl
  have floor := order.released_all ended
  rw [View.released_all_eq _ v v rfl rfl] at floor
  exact ⟨u, .of_act frames goes does, floor.congr rfl rfl rfl, rfl, rfl, rfl, rfl, rfl⟩

/-- The frames under the run loop of a root fiber. -/
def Site.under (c : Site) : List Frame := [.release [.scheduler c.scheduler], .fiberBody c.root]

/-- The fiber that waits for the root fiber, and the idle fiber before it is entered. -/
def Site.bottom (c : Site) (caller idle : FiberId) (entry : Option Body) (outer : List Frame) :
    List Cell :=
  [⟨caller, .hold, entry, 0, some outer⟩,
    ⟨idle, .init, some (.idle c.scheduler), 1, some [.fiberStart idle]⟩]

/-- With an empty queue the run loop enters its idle fiber, and comes to its last turn. -/
theorem Between.idles (held : 1 ≤ v.handles)
    (h : Between c chain base (c.bottom caller idle entry outer) idle family pooled done [] v) :
    ∃ u, Runs c v u ∧
      Floor u c.root chain
        (⟨c.root, .exec, none, 2, none⟩ :: ⟨idle, .term, none, 1, some [.fiberEnd]⟩ ::
          (pooled ++ ⟨caller, .hold, entry, 0, some outer⟩ :: done)) ∧
      u.frames = .loop (c.loop idle (pooled.map Cell.id)) :: base ∧ u.signal = .done .null ∧
      u.shared = v.shared ∧ u.handles = v.handles ∧ u.reports = v.reports := by
  obtain ⟨d, signal⟩ := h.signal
  have floor := h.floor.perm (List.Perm.cons _ (List.Perm.swap ..))
  obtain ⟨u₁, entered⟩ := turnIdle_runs h.frames signal h.queue floor
  have finished : u₁.shared.isDone = true := by
    rw [entered.shared]
    simp only [Shared.isDone, Shared.enterIdle, h.autoStop, h.stopping, h.queue, h.active]
    rfl
  obtain ⟨u₂, idles, floor, frames, signal, shared, handles, reports⟩ :=
    idle_ends finished (entered.handles ▸ held) entered.frames entered.signal entered.floor
  let u : View :=
    { u₂ with
      frames := .loop (c.loop idle (pooled.map Cell.id)) :: base
      signal := .done .null
      shared := u₂.shared.leaveIdle }
  have turned : Runs c u₂ u := by
    have goes : proceedWith (.loopIdle (c.loop idle (pooled.map Cell.id))) u₂.signal =
        turnedIdle (c.loop idle (pooled.map Cell.id)) := by
      rw [signal]
      rfl
    exact .of_act frames goes ((updateShared_does _).bind ((push_does _).bind (.pure _)))
  refine ⟨u, entered.runs.trans (idles.trans turned), ?_, rfl, rfl, ?_,
    handles.trans entered.handles, reports.trans entered.reports⟩
  · have behind : (pooled ++ ⟨caller, .hold, entry, 0, some outer⟩ :: done).Perm
        (⟨caller, .hold, entry, 0, some outer⟩ :: (pooled ++ done)) := List.perm_middle
    exact (floor.perm ((behind.symm.cons _).cons _)).congr rfl rfl rfl
  · change u₂.shared.leaveIdle = _
    rw [shared, entered.shared]
    rfl

/-- The root fiber ends after its run loop. -/
theorem root_ends (held : 1 < v.handles) (frames : v.frames = c.under)
    (signal : v.signal = .done .null)
    (floor : Floor v c.root (caller :: chain)
      (⟨c.root, .exec, none, 2, none⟩ :: ⟨caller, .hold, entry, 0, some outer⟩ :: cells)) :
    ∃ u, Runs c v u ∧
      Floor u caller chain
        (⟨caller, .exec, entry, 0, none⟩ :: ⟨c.root, .term, none, 2, some [.fiberEnd]⟩ :: cells) ∧
      u.frames = outer ∧ u.signal = .left .term ∧ u.shared = v.shared ∧
      u.handles = v.handles - 1 ∧ u.reports = v.reports := by
  let freed : View :=
    { v with frames := [.fiberBody c.root], signal := .done .null, handles := v.handles - 1 }
  have first : Runs c v freed := by
    have goes : proceedWith (.release [.scheduler c.scheduler]) v.signal =
        (do release [.scheduler c.scheduler]; return .done .null) := by
      rw [signal]
      rfl
    have free := release_scheduler_does (c := c)
      (v := { v with frames := [.fiberBody c.root] }) held
    exact .of_act frames goes (free.bind (.pure _))
  have floor : Floor freed c.root (caller :: chain) _ := floor.congr rfl rfl rfl
  obtain ⟨u, second, rest⟩ := finish_runs floor rfl rfl
  exact ⟨u, first.trans second, rest⟩

/-- The run loop with an empty queue, from its next turn to the end of the root fiber. -/
theorem Between.leaves (held : 2 ≤ v.handles)
    (h : Between c (caller :: chain) c.under (c.bottom caller idle entry outer) idle family pooled
      done [] v) :
    ∃ u, Runs c v u ∧
      Floor u caller chain
        (⟨caller, .exec, entry, 0, none⟩ :: ⟨c.root, .term, none, 2, some [.fiberEnd]⟩ :: done) ∧
      u.frames = outer ∧ u.signal = .left .term ∧ u.shared = v.shared ∧
      u.handles = v.handles - 1 ∧ u.reports = v.reports := by
  obtain ⟨u₁, first, floor, frames, signal, shared, handles, reports⟩ :=
    h.idles (Nat.le_of_succ_le held)
  obtain ⟨u₂, second, floor, frames, signal, shared', handles', reports'⟩ :=
    lastTurn_runs frames signal (shared ▸ h.queue) h.kept floor
  have held' : 1 < u₂.handles := by
    rw [handles', handles]
    exact held
  obtain ⟨u, third, floor, frames, signal, shared'', handles'', reports''⟩ :=
    root_ends held' frames signal floor
  refine ⟨u, first.trans (second.trans third), floor, frames, signal, ?_, ?_, ?_⟩
  · rw [shared'', shared', shared]
  · rw [handles'', handles', handles]
  · rw [reports'', reports', reports]

end Fibers.Script
