import Fibers.Proofs.Manager.Idling

/-!
The end of a first stop. Once the idle fiber has found that nothing is left, nobody adds to the
work: the idle fiber ends, the run loop lets go of the fibers that it kept, the root fiber ends, and
the stop returns to its script.
-/

namespace Fibers.Script

/-- What is settled does not depend on the fibers. -/
theorem Settled.congr {notes : List Note} {c u : Scene} (h : Settled notes c)
    (queue : u.shared.queue = c.shared.queue) (active : u.shared.active = c.shared.active)
    (table : u.table = c.table) (timers : u.timers = c.timers) : Settled notes u where
  queue := queue.trans h.queue
  active := active.trans h.active
  pending := table ▸ h.pending
  timers := timers ▸ h.timers
  bodies := h.bodies
  sleeps := h.sleeps

namespace Station

variable {p : Station} {b : Books} {c u : Scene} {w w' : World} {k : Bench} {d : Datum}
  {notes : List Note} {back : List Frame} {s : Signal} {a : FiberId} {chain : List FiberId}
  {cells : List Cell}

/-- A round of the idle fiber. -/
theorem idling_goes {entry : Option Body} {extra : Nat} (room : p.settings.maxEvents * 8 < rowLimit)
    (shows : p.Depicts c w) (valid : k.Valid) (round : w.round = some w') (timely : w'.Timely)
    {fs : List Frame} (frames : c.frames = fs) (signal : c.signal = s) {x : Option Wait}
    (wait : c.wait = x) (idling : Idling p k.idle fs s x entry extra)
    (live : Live p (k.idling p entry extra) b c) (spare : ∀ id, b.spare id = 0) :
    ∃ c', p.Depicts c' w' ∧ Phase p k.back (w.notes w'.thread.signal ++ b.notes) c' := by
  cases idling with
  | begins d => exact begins_idling_goes shows valid round spare room live frames signal wait
  | looks d => exact looks_goes shows valid round spare live frames signal wait timely
  | waits timeout s millis t => exact waits_goes shows valid round spare live frames wait
  | polls timeout res => exact polls_goes shows valid round spare live frames signal wait timely
  | fires found => exact fires_goes shows valid round spare live frames signal wait timely

/-- After a round of the idle fiber the run loop looks for work again. -/
theorem rested_goes (shows : p.Depicts c w) (valid : k.Valid)
    (round : w.round = some w') (live : Live p (k.looping p [] 0) b c)
    (frames : c.frames = .loopIdle (k.loop p) :: p.under) (signal : c.signal = .left .hold)
    (wait : c.wait = none) (spare : ∀ id, b.spare id = 0) :
    ∃ c', p.Depicts c' w' ∧ Phase p k.back (w.notes w'.thread.signal ++ b.notes) c' := by
  let u : Scene :=
    { c with shared := c.shared.leaveIdle, frames := .loop (k.loop p) :: p.under }
  have does : p.Does { c with frames := p.under } (turnedIdle (k.loop p)) (.done .null) u :=
    (updateShared_does _).bind ((push_does _).bind (.pure _))
  refine goes_quiet shows wait frames round ?_ (by rw [signal]; rfl) does ?_
  · rw [World.notes, shows.thread.frames, frames]
  · have store : Store p b { u with signal := .done .null } :=
      live.store.refit ⟨rfl, rfl, rfl, rfl, rfl, rfl⟩ ⟨rfl, rfl, rfl, rfl⟩ (Nat.le_refl _)
        (Nat.le_refl _)
    exact turns valid store (live.floor.congr rfl rfl rfl) rfl ⟨_, rfl⟩ wait live.hand live.risen
      live.due live.lent live.active live.stopping live.autoStop spare

/-- Fibers that have ended are let go of one after the other. -/
theorem frees_ended {gone : List Cell} (floor : Floor c.toView a chain (gone ++ cells))
    (ended : ∀ x ∈ gone, x.Ended) :
    ∃ fibers saved, p.Frees c (gone.map fun x => .fiber x.id)
        { c with fibers := fibers, saved := saved } ∧
      Floor { c with fibers := fibers, saved := saved : Scene }.toView a chain cells := by
  induction gone generalizing c with
  | nil => exact ⟨c.fibers, c.saved, .nil c, floor⟩
  | cons x gone ih =>
    have rests := (ended x List.mem_cons_self).resting
    have light : ∀ r, c.fibers.get? x.id = some r → r.entry = none ∨ 1 < r.handles := by
      obtain ⟨⟨q, found, _, entry, _⟩, _⟩ := floor.holds x List.mem_cons_self
      intro r known
      obtain rfl := Option.some.inj (known.symm.trans found)
      exact .inl (entry.trans (ended x List.mem_cons_self).entry)
    obtain ⟨fibers, saved, frees, floor⟩ := ih (floor.released rests.1 rests.2).freed
      fun y mem => ended y (List.mem_cons_of_mem x mem)
    exact ⟨fibers, saved, .cons (releaseOne_fiber_does light) frees, floor⟩

/-- A turn after the idle fiber has ended lets go of the fibers that the run loop kept. -/
theorem lastTurn_does (valid : k.Valid) (queue : c.shared.queue = [])
    (floor : Floor c.toView p.root [k.caller]
      (p.rootCell none :: ⟨k.idle, .term, none, 1, some [.fiberEnd]⟩ :: k.callerCell p ::
        k.pooled)) :
    ∃ fibers saved, p.Does c (turn (k.loop p)) (.done .null)
        { c with fibers := fibers, saved := saved } ∧
      Floor { c with fibers := fibers, saved := saved : Scene }.toView p.root [k.caller]
        [p.rootCell none, k.callerCell p] := by
  let idleCell : Cell := ⟨k.idle, .term, none, 1, some [.fiberEnd]⟩
  let gone : List Cell := (idleCell :: k.pooled).reverse
  have old : (c.fibers.state k.idle).isTerminal = true := by
    rw [(floor.holds idleCell (by simp [idleCell])).state]
    rfl
  have ended : ∀ x ∈ gone, x.Ended := fun x mem => by
    rcases List.mem_cons.mp (List.mem_reverse.mp mem) with rfl | mem
    · exact ⟨rfl, rfl, rfl⟩
    · exact valid x mem
  have order : (p.rootCell none :: idleCell :: k.callerCell p :: k.pooled).Perm
      (gone ++ [p.rootCell none, k.callerCell p]) := by
    have front : (p.rootCell none :: idleCell :: k.callerCell p :: k.pooled).Perm
        ([p.rootCell none, k.callerCell p] ++ idleCell :: k.pooled) :=
      .cons _ (List.Perm.swap ..)
    exact front.trans (List.perm_append_comm.trans ((List.reverse_perm _).symm.append_right _))
  obtain ⟨fibers, saved, frees, floor⟩ := frees_ended (floor.perm order) ended
  have handles : (k.loop p).handles = gone.map fun x => .fiber x.id := by
    simp [Loop.handles, Bench.loop, gone, idleCell]
  refine ⟨fibers, saved, ?_, floor⟩
  refine (takeNext_none_does queue).bind (Does.get fun x shows => ?_)
  rw [shows.fibers, if_pos (show (c.fibers.state (k.loop p).idleFiber).isTerminal = true from old)]
  exact (Does.log _ _).bind ((handles ▸ frees.does).bind (.pure _))

/-- The root fiber ends, and the stop goes on. -/
theorem rootEnds_does
    (floor : Floor c.toView p.root [k.caller] [p.rootCell none, k.callerCell p]) :
    ∃ u, p.Does { c with frames := [] } (finish p.root .term) (.left .term) u ∧ c.Steady u ∧
      u.frames = p.calling k.back ∧
      Floor u.toView k.caller [] [⟨p.root, .term, none, 2, some [.fiberEnd]⟩] := by
  let v : Scene := { c with frames := [.fiberEnd] }
  have floor : Floor v.toView p.root [k.caller] [p.rootCell none, k.callerCell p] :=
    floor.congr rfl rfl rfl
  obtain ⟨t, ok, -, told, floor, resumed⟩ := floor.handed .term (by decide)
  have does : p.Does { c with frames := [] } (finish p.root .term) (toldSignal t.told)
      (v.followed t) := finish_does (c := { c with frames := [] }) ok
  rw [told] at does
  exact ⟨v.followed t, does, ⟨rfl, rfl, rfl, rfl, rfl, rfl, rfl⟩, resumed,
    floor.forget.congr rfl rfl rfl⟩

/-- The stop lets go of the root fiber. -/
theorem rootEnded_does
    (floor : Floor c.toView k.caller [] [⟨p.root, .term, none, 2, some [.fiberEnd]⟩]) :
    p.Does c (release [.fiber p.root]) () (c.freed p.root) ∧
      (c.freed p.root).fibers.Orderly (c.freed p.root).current [] := by
  have light : ∀ r, c.fibers.get? p.root = some r → r.entry = none ∨ 1 < r.handles := by
    obtain ⟨⟨q, found, _, entry, _⟩, _⟩ := floor.holds _ List.mem_cons_self
    intro r known
    obtain rfl := Option.some.inj (known.symm.trans found)
    exact .inl entry
  exact ⟨release_fiber_does light, (floor.released nofun nofun).freed.ground.order⟩

/-- There are no other workers to wait for. -/
theorem stopJoin_does : p.Does c (stopJoin p.scheduler) (.done .null) c := by
  refine Does.schedulerRecord fun x is => ?_
  rw [is.workers]
  have free : p.Does c (updateScheduler p.scheduler fun x => { x with workers := [] }) () c :=
    updateScheduler_does fun _ is => { is with workers := rfl }
  exact free.bind (schedulerName_does.bind ((Does.log _ _).bind (.pure _)))

section Closing

variable (shows : p.Depicts c w) (round : w.round = some w') (settled : Settled notes c)
  (wait : c.wait = none)
include shows round settled wait

/-- A round after which nothing is left, as before. -/
theorem closing_step {f : Frame} {rest : List Frame} {act : Act Signal}
    {running : FiberId} {due lent : Nat}
    (valid : k.Valid) (frames : c.frames = f :: rest) (quiet : ∀ s, w.notes s = [])
    (goes : proceedWith f c.signal = act) (does : p.Does { c with frames := rest } act s u)
    (closing : Closing p k u.frames s cells running chain due lent)
    (floor : Floor u.toView running chain cells)
    (queue : u.shared.queue = c.shared.queue) (active : u.shared.active = c.shared.active)
    (table : u.table = c.table) (timers : u.timers = c.timers) (still : u.wait = c.wait)
    (handles : due ≤ u.handles) (held : lent ≤ u.held) :
    ∃ c', p.Depicts c' w' ∧ Phase p k.back (w.notes w'.thread.signal ++ notes) c' :=
  goes_quiet shows wait frames round (quiet _) goes does
    (.closing k rfl valid (settled.congr queue active table timers) closing
      (floor.congr rfl rfl rfl) (still.trans wait) handles held)

variable (valid : k.Valid)
include valid

/-- The idle fiber lets go of its handles. -/
theorem idleExits_goes (frames : c.frames = p.resting k.idle) (signal : c.signal = .done d)
    (floor : Floor c.toView k.idle [p.root, k.caller]
      (⟨k.idle, .exec, none, 1, none⟩ :: p.rootCell (some (.loopIdle (k.loop p) :: p.under)) ::
        k.callerCell p :: k.pooled))
    (handles : 4 ≤ c.handles) (held : 2 ≤ c.held) :
    ∃ c', p.Depicts c' w' ∧ Phase p k.back (w.notes w'.thread.signal ++ notes) c' := by
  have free := (release_both_does (p := p) (c := { c with frames := [.fiberBody k.idle] })
    (show 1 < c.handles by omega) held).2
  have does : p.Does { c with frames := [.fiberBody k.idle] }
      (proceed (.done d) (.release [.reactor p.reactor, .scheduler p.scheduler])) (.done d)
      { c with
        frames := [.fiberBody k.idle]
        handles := c.handles - 1
        held := c.held - 1 } := free.bind (.pure _)
  refine closing_step shows round settled wait valid frames (fun _ => ?_) (by rw [signal]; rfl)
    does (.idleEnds d) (floor.congr rfl rfl rfl) rfl rfl rfl rfl rfl ?_ ?_
  · rw [World.notes, shows.thread.frames, frames]
    rfl
  · change 3 ≤ c.handles - 1
    omega
  · change 1 ≤ c.held - 1
    omega

/-- The idle fiber ends. -/
theorem idleEnds_goes (frames : c.frames = [.fiberBody k.idle]) (signal : c.signal = .done d)
    (floor : Floor c.toView k.idle [p.root, k.caller]
      (⟨k.idle, .exec, none, 1, none⟩ :: p.rootCell (some (.loopIdle (k.loop p) :: p.under)) ::
        k.callerCell p :: k.pooled))
    (handles : 3 ≤ c.handles) (held : 1 ≤ c.held) :
    ∃ c', p.Depicts c' w' ∧ Phase p k.back (w.notes w'.thread.signal ++ notes) c' := by
  obtain ⟨u, does, steady, resumed, floor⟩ := ends_does floor
  refine closing_step shows round settled wait valid frames (fun _ => ?_) (by rw [signal]; rfl)
    does (resumed ▸ .idleEnded) floor (by rw [steady.shared]) (by rw [steady.shared]) steady.table
    steady.timers steady.wait (steady.handles ▸ handles) (steady.held ▸ held)
  rw [World.notes, shows.thread.frames, frames]

/-- The run loop sees that the idle fiber has left. -/
theorem idleEnded_goes (frames : c.frames = .loopIdle (k.loop p) :: p.under)
    (signal : c.signal = .left .term)
    (floor : Floor c.toView p.root [k.caller]
      (p.rootCell none :: ⟨k.idle, .term, none, 1, some [.fiberEnd]⟩ :: k.callerCell p ::
        k.pooled))
    (handles : 3 ≤ c.handles) (held : 1 ≤ c.held) :
    ∃ c', p.Depicts c' w' ∧ Phase p k.back (w.notes w'.thread.signal ++ notes) c' := by
  have does : p.Does { c with frames := p.under } (turnedIdle (k.loop p)) (.done .null)
      { c with shared := c.shared.leaveIdle, frames := .loop (k.loop p) :: p.under } :=
    (updateShared_does _).bind ((push_does _).bind (.pure _))
  refine closing_step shows round settled wait valid frames (fun _ => ?_) (by rw [signal]; rfl)
    does (.lastTurn .null) (floor.congr rfl rfl rfl) rfl rfl rfl rfl rfl handles held
  rw [World.notes, shows.thread.frames, frames]

/-- The turn after the idle fiber has ended is the last one. -/
theorem lastTurn_goes (frames : c.frames = .loop (k.loop p) :: p.under)
    (signal : c.signal = .done d)
    (floor : Floor c.toView p.root [k.caller]
      (p.rootCell none :: ⟨k.idle, .term, none, 1, some [.fiberEnd]⟩ :: k.callerCell p ::
        k.pooled))
    (handles : 3 ≤ c.handles) (held : 1 ≤ c.held) :
    ∃ c', p.Depicts c' w' ∧ Phase p k.back (w.notes w'.thread.signal ++ notes) c' := by
  let v : Scene := { c with frames := p.under }
  have known : Floor v.toView p.root [k.caller] _ := floor.congr rfl rfl rfl
  obtain ⟨fibers, saved, does, floor⟩ := lastTurn_does (c := v) valid settled.queue known
  refine closing_step shows round settled wait valid frames (fun _ => ?_) (by rw [signal]; rfl)
    does (.leaves .null) floor rfl rfl rfl rfl rfl handles held
  rw [World.notes, shows.thread.frames, frames]

/-- The root fiber lets go of the scheduler. -/
theorem leaves_goes (frames : c.frames = p.under) (signal : c.signal = .done d)
    (floor : Floor c.toView p.root [k.caller] [p.rootCell none, k.callerCell p])
    (handles : 3 ≤ c.handles) (held : 1 ≤ c.held) :
    ∃ c', p.Depicts c' w' ∧ Phase p k.back (w.notes w'.thread.signal ++ notes) c' := by
  have free := release_scheduler_does (p := p) (c := { c with frames := [.fiberBody p.root] })
    (show 1 < c.handles by omega)
  have does : p.Does { c with frames := [.fiberBody p.root] }
      (proceed (.done d) (.release [.scheduler p.scheduler])) (.done d)
      { c with frames := [.fiberBody p.root], handles := c.handles - 1 } := free.bind (.pure _)
  refine closing_step shows round settled wait valid frames (fun _ => ?_) (by rw [signal]; rfl)
    does (.rootEnds d) (floor.congr rfl rfl rfl) rfl rfl rfl rfl rfl ?_ held
  · rw [World.notes, shows.thread.frames, frames]
    rfl
  · change 2 ≤ c.handles - 1
    omega

/-- The root fiber ends. -/
theorem rootEnds_goes (frames : c.frames = [.fiberBody p.root]) (signal : c.signal = .done d)
    (floor : Floor c.toView p.root [k.caller] [p.rootCell none, k.callerCell p])
    (handles : 2 ≤ c.handles) (held : 1 ≤ c.held) :
    ∃ c', p.Depicts c' w' ∧ Phase p k.back (w.notes w'.thread.signal ++ notes) c' := by
  obtain ⟨u, does, steady, resumed, floor⟩ := rootEnds_does floor
  refine closing_step shows round settled wait valid frames (fun _ => ?_) (by rw [signal]; rfl)
    does (resumed ▸ .rootEnded) floor (by rw [steady.shared]) (by rw [steady.shared]) steady.table
    steady.timers steady.wait (steady.handles ▸ handles) (steady.held ▸ held)
  rw [World.notes, shows.thread.frames, frames]

omit valid in
/-- The stop lets go of the root fiber. -/
theorem rootEnded_goes (frames : c.frames = p.calling k.back) (signal : c.signal = .left .term)
    (floor : Floor c.toView k.caller [] [⟨p.root, .term, none, 2, some [.fiberEnd]⟩])
    (handles : 2 ≤ c.handles) :
    ∃ c', p.Depicts c' w' ∧ Phase p k.back (w.notes w'.thread.signal ++ notes) c' := by
  let v : Scene :=
    { c with frames := .stopJoin p.scheduler :: .release [.scheduler p.scheduler] :: k.back }
  have rooted : Floor v.toView k.caller [] _ := floor.congr rfl rfl rfl
  obtain ⟨free, order⟩ := rootEnded_does rooted
  have does : p.Does v (proceed (.left .term) (.release [.fiber p.root])) (.left .term)
      (v.freed p.root) := free.bind (.pure _)
  refine goes_quiet shows wait frames round ?_ (by rw [signal]; rfl) does
    (.joining (settled.congr rfl rfl rfl rfl) rfl ⟨_, rfl⟩ wait order handles)
  rw [World.notes, shows.thread.frames, frames]
  rfl

/-- A round between the end of the idle fiber and that of the root fiber. -/
theorem closing_goes {fs : List Frame} (frames : c.frames = fs) (signal : c.signal = s)
    {running : FiberId} {due lent : Nat} (closing : Closing p k fs s cells running chain due lent)
    (floor : Floor c.toView running chain cells) (handles : due ≤ c.handles)
    (held : lent ≤ c.held) :
    ∃ c', p.Depicts c' w' ∧ Phase p k.back (w.notes w'.thread.signal ++ notes) c' := by
  cases closing with
  | idleExits d =>
    exact idleExits_goes shows round settled wait valid frames signal floor handles held
  | idleEnds d =>
    exact idleEnds_goes shows round settled wait valid frames signal floor handles held
  | idleEnded =>
    exact idleEnded_goes shows round settled wait valid frames signal floor handles held
  | lastTurn d =>
    exact lastTurn_goes shows round settled wait valid frames signal floor handles held
  | leaves d => exact leaves_goes shows round settled wait valid frames signal floor handles held
  | rootEnds d =>
    exact rootEnds_goes shows round settled wait valid frames signal floor handles held
  | rootEnded => exact rootEnded_goes shows round settled wait frames signal floor handles

omit valid in
/-- There are no other workers to wait for. -/
theorem joining_goes
    (frames : c.frames = .stopJoin p.scheduler :: .release [.scheduler p.scheduler] :: back)
    (signal : ∃ s, c.signal = .left s)
    (order : c.fibers.Orderly c.current []) (handles : 2 ≤ c.handles) :
    ∃ c', p.Depicts c' w' ∧ Phase p back (w.notes w'.thread.signal ++ notes) c' := by
  have goes : proceedWith (.stopJoin p.scheduler) c.signal = stopJoin p.scheduler := by
    obtain ⟨s, signal⟩ := signal
    rw [signal]
    rfl
  refine goes_quiet shows wait frames round ?_ goes stopJoin_does
    (.finishing (settled.congr rfl rfl rfl rfl) rfl ⟨_, rfl⟩ wait order handles)
  rw [World.notes, shows.thread.frames, frames]

omit valid in
/-- The stop lets go of the scheduler. -/
theorem finishing_goes (frames : c.frames = .release [.scheduler p.scheduler] :: back)
    (signal : c.signal = .done d) (order : c.fibers.Orderly c.current [])
    (handles : 2 ≤ c.handles) :
    ∃ c', p.Depicts c' w' ∧ Phase p back (w.notes w'.thread.signal ++ notes) c' := by
  have free := release_scheduler_does (p := p) (c := { c with frames := back }) handles
  have does : p.Does { c with frames := back }
      (proceed (.done d) (.release [.scheduler p.scheduler])) (.done d)
      { c with frames := back, handles := c.handles - 1 } := free.bind (.pure _)
  refine goes_quiet shows wait frames round ?_ (by rw [signal]; rfl) does
    (.returned (settled.congr rfl rfl rfl rfl) rfl order)
  rw [World.notes, shows.thread.frames, frames]

end Closing

end Station

end Fibers.Script
