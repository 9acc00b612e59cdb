import Fibers.Proofs.Sleep.Errands
import Fibers.Proofs.Sleep.Resting

/-!
The run of a manager whose tasks only sleep. As long as tasks are left, the run loop comes from turn
to turn, each time with a step of the machine; once none is left, the stop returns.
-/

namespace Fibers.Script

namespace Station

variable {p : Station} {k : Bench} {d : Dorm} {c : Scene} {now : Instant} {x : Datum}
  {back : List Frame} {done : List (Sleep × Nat)} {usable : Nat}

/-- The stop has returned. -/
def Back (back : List Frame) (log : List SleepEvent) (c : Scene) (_ : Instant) : Prop :=
  log = [] ∧ c.frames = back ∧ c.fibers.Orderly c.current []

/-- The stop returns once it has let go of the scheduler. -/
theorem finishes_leads (wait : c.wait = none)
    (frames : c.frames = .release [.scheduler p.scheduler] :: back) (signal : c.signal = .done x)
    (handles : 2 ≤ c.handles) (order : c.fibers.Orderly c.current []) :
    p.Leads back c now (Back back) := by
  have free := release_scheduler_does (p := p) (c := { c with frames := back }) handles
  refine .step (busy_above [_] (List.cons_ne_nil _ _) frames) wait frames
    (fun t => by rw [frames]; rfl) (by rw [signal]; rfl) (free.bind (.pure _))
    (.bind (release_gently _) fun _ => .pure _) ?_
  exact .here ⟨rfl, rfl, order⟩

/-- The stop returns once the root fiber has ended. -/
theorem joins_leads (wait : c.wait = none) (frames : c.frames = p.calling k.back)
    (signal : c.signal = .left .term) (handles : 2 ≤ c.handles)
    (floor : Floor c.toView k.caller [] [⟨p.root, .term, none, 2, some [.fiberEnd]⟩]) :
    p.Leads k.back c now (Back k.back) := by
  let v₁ : Scene := { c with
    frames := .stopJoin p.scheduler :: .release [.scheduler p.scheduler] :: k.back }
  let v₂ : Scene := { v₁.freed p.root with
    frames := .release [.scheduler p.scheduler] :: k.back, signal := .left .term }
  have rooted : Floor v₁.toView k.caller [] _ := floor.congr rfl rfl rfl
  obtain ⟨frees, order⟩ := rootEnded_does rooted
  refine .step (u := v₁.freed p.root) (s := .left .term)
    (busy_above [_, _, _] (List.cons_ne_nil _ _) frames) wait frames
    (fun t => by rw [frames]; rfl) (by rw [signal]; rfl) (frees.bind (.pure _))
    (.bind (release_gently _) fun _ => .pure _) ?_
  refine .step (u := v₂) (busy_above [_, _] (List.cons_ne_nil _ _) rfl) wait rfl
    (fun t => rfl) rfl stopJoin_does (stopJoin_gently _) ?_
  exact finishes_leads wait rfl rfl handles order

/-- The root fiber ends once the idle fiber has ended. -/
theorem closes_leads (valid : k.Valid) (wait : c.wait = none) (queue : c.shared.queue = [])
    (frames : c.frames = .loop (k.loop p) :: p.under) (signal : c.signal = .done x)
    (floor : Floor c.toView p.root [k.caller]
      (p.rootCell none :: ⟨k.idle, .term, none, 1, some [.fiberEnd]⟩ :: k.callerCell p ::
        k.pooled)) (handles : 3 ≤ c.handles) :
    p.Leads k.back c now (Back k.back) := by
  let v : Scene := { c with frames := p.under }
  have known : Floor v.toView p.root [k.caller] _ := floor.congr rfl rfl rfl
  obtain ⟨fibers, saved, turns, rests⟩ := lastTurn_does (c := v) valid queue known
  refine .step (busy_inside floor) wait frames (fun t => by rw [frames]; rfl)
    (by rw [signal]; rfl) turns (turn_gently _) ?_
  -- The root fiber lets go of the scheduler.
  let v₁ : Scene := { c with fibers := fibers, saved := saved, frames := [.fiberBody p.root] }
  let v₂ : Scene := { v₁ with signal := .done .null, handles := c.handles - 1 }
  have free : p.Does { v₁ with signal := .done .null }
      (proceed (.done .null) (.release [.scheduler p.scheduler])) (.done .null) v₂ :=
    (release_scheduler_does (c := { v₁ with signal := .done .null })
      (show 2 ≤ c.handles by omega)).bind (.pure _)
  refine .step (busy_inside (rests.congr rfl rfl rfl)) wait rfl (fun t => rfl) rfl free
    (.bind (release_gently _) fun _ => .pure _) ?_
  -- It ends.
  have rests : Floor v₂.toView p.root [k.caller] [p.rootCell none, k.callerCell p] :=
    rests.congr rfl rfl rfl
  obtain ⟨u, ends, steady, resumed, floor⟩ := rootEnds_does rests
  refine .step (busy_inside rests) wait rfl (fun t => rfl) rfl ends (finish_gently _ _) ?_
  refine joins_leads (steady.wait.trans wait) resumed rfl ?_ (floor.congr rfl rfl rfl)
  change 2 ≤ u.handles
  rw [steady.handles]
  change 2 ≤ c.handles - 1
  omega

/-- The idle fiber ends once it has found that nothing is left. -/
theorem exits_leads (idle : p.AtIdle k none 1 d c) (queue : d.queue = []) (alarms : d.alarms = [])
    (frames : c.frames = p.resting k.idle) (signal : c.signal = .done x) :
    p.Leads k.back c now (Back k.back) := by
  have handles := idle.hosts.handles
  have held := idle.hosts.held
  -- The idle fiber lets go of the scheduler and the reactor.
  let v : Scene := { c with
    frames := [.fiberBody k.idle], handles := c.handles - 1, held := c.held - 1 }
  have free : p.Does { c with frames := [.fiberBody k.idle] }
      (proceed (.done x) (.release [.reactor p.reactor, .scheduler p.scheduler])) (.done x) v :=
    (release_both_does (c := { c with frames := [.fiberBody k.idle] })
      (show 1 < c.handles by omega) (show 1 < c.held by omega)).2.bind (.pure _)
  refine .step (busy_inside idle.floor) idle.hosts.wait frames (fun t => by rw [frames]; rfl)
    (by rw [signal]; rfl) free (.bind (release_gently _) fun _ => .pure _) ?_
  -- It ends.
  have nobody : d.cells p = [] := by
    rw [Dorm.cells, queue, alarms]
    rfl
  have floor := idle.floor
  rw [nobody, List.append_nil] at floor
  let v' : Scene := { v with signal := .done x }
  have floor : Floor v'.toView k.idle [p.root, k.caller]
      (⟨k.idle, .exec, none, 1, none⟩ :: p.rootCell (some (.loopIdle (k.loop p) :: p.under)) ::
        k.callerCell p :: k.pooled) := floor.congr rfl rfl rfl
  obtain ⟨u, ends, steady, resumed, floor'⟩ := ends_does (c := v') floor
  refine .step (busy_inside floor) idle.hosts.wait rfl (fun t => rfl) rfl ends
    (finish_gently _ _) ?_
  -- The run loop takes note of it.
  let u' : Scene := { u with signal := .left .term }
  have does : p.Does { u' with frames := p.under } (turnedIdle (k.loop p)) (.done .null)
      { u' with shared := u.shared.leaveIdle, frames := .loop (k.loop p) :: p.under } :=
    (updateShared_does _).bind ((push_does _).bind (.pure _))
  have wait : u.wait = none := steady.wait.trans idle.hosts.wait
  refine .step (busy_inside (floor'.congr rfl rfl rfl)) wait resumed
    (fun t => by rw [show u'.frames = _ from resumed]; rfl) rfl does (turnedIdle_gently _) ?_
  refine closes_leads idle.valid wait ?_ rfl rfl (floor'.congr rfl rfl rfl) ?_
  · change u.shared.queue = []
    rw [steady.shared]
    exact idle.hosts.queue.trans (by rw [queue]; rfl)
  · change 3 ≤ u.handles
    rw [steady.handles]
    change 3 ≤ c.handles - 1
    omega

/-- The stop returns once nothing is left. -/
theorem AtTurn.ends (turn : p.AtTurn k d c) (queue : d.queue = []) (alarms : d.alarms = [])
    (room : p.settings.maxEvents * 8 < rowLimit) : p.Leads k.back c now (Back k.back) := by
  intro w seen inTime
  obtain ⟨u, ⟨w₁, diary, seen₁, -⟩, idle, frames, x, signal⟩ := turn.idles queue room seen
  let v : Scene := { u with frames := p.resting k.idle }
  have finished : (v.table.pending == 0 && !v.timers.hasTimer && v.shared.isDone) = true := by
    have pending : u.table.pending = 0 := idle.hosts.table.pending
    have timers : u.timers.hasTimer = false := by
      rw [Timers.hasTimer, idle.hosts.rings.isEmpty_iff.mpr alarms]
      rfl
    have none : u.shared.queue = [] := idle.hosts.queue.trans (by rw [queue]; rfl)
    simp only [v, pending, timers, Shared.isDone, none, idle.hosts.active, idle.hosts.stopping,
      idle.hosts.autoStop]
    rfl
  have shown := seen₁.popped (p.resting k.idle)
  have gentle : Gentle False (w₁.popped (p.resting k.idle))
      ((idleReactor p.scheduler p.reactor).on (w₁.popped (p.resting k.idle))).2 := by
    have stops := shown.depicts.isStopping.trans finished
    have asked : (isStopping p.scheduler).on (w₁.popped (p.resting k.idle)) =
        (.ok true, w₁.popped (p.resting k.idle)) := by
      rw [← stops]
      rfl
    rw [idleReactor, Act.on_bind_ok asked, if_pos rfl]
    exact Act.Gently.bind (schedulerName_gently _) (fun _ => .bind (log_gently _ _) fun _ =>
      .bind (tickle_gently _) fun _ => .pure _) _
  obtain ⟨w₂, round, seen₂, -⟩ := seen₁.runs idle.hosts.wait frames (by rw [signal]; rfl)
    (exits_does (c := v) finished) gentle
  have quiet : w₁.sleepEvents = [] := by
    rw [seen₁.sleepEvents, frames]
    rfl
  refine .after diary (.first (busy_inside idle.floor w₁ seen₁.depicts) round quiet
    (diary.inTime inTime) fun inTime' => ?_)
  exact exits_leads (idle.told _ _) queue alarms rfl rfl w₂ seen₂ inTime'

/-- The first alarm is the next one. -/
theorem first_due {first : Nap} {alarms : List Nap} (sound : d.Sound done)
    (asleep : d.alarms = first :: alarms) :
    ∀ x ∈ d.alarms, first.sleep.due ≤ x.sleep.due := by
  have order := (List.pairwise_append.mp sound.order).2.1
  rw [Dorm.line, asleep, List.map_append] at order
  have order := (List.pairwise_append.mp order).2.1
  rw [List.map_cons, List.pairwise_cons] at order
  rw [asleep]
  refine List.forall_mem_cons.mpr ⟨Nat.le_refl _, fun x mem => ?_⟩
  rcases order.1 x.entry (List.mem_map_of_mem mem) with less | ⟨same, -⟩
  · exact Nat.le_of_lt less
  · exact Nat.le_of_eq same

/-- As long as tasks are left, the run loop comes to a turn after a step of the machine. -/
theorem steps_leads (turn : p.AtTurn k d c) (sound : d.Sound done)
    (mappable : Mappable p.config.stackSize usable) (room : p.settings.maxEvents * 8 < rowLimit)
    (waits : 0 < p.settings.maxWait) (left : d.queue ≠ [] ∨ d.alarms ≠ []) :
    p.Leads k.back c d.now fun log c' now =>
      ∃ d', Dorm.Step d d' ∧ p.Arrives k.back d.log d' log c' now := by
  by_cases queue : d.queue = []
  · cases asleep : d.alarms with
    | nil => exact absurd (left.resolve_left fun some => some queue) fun some => some asleep
    | cons first alarms =>
      intro w seen _
      have inTime : ∀ x ∈ d.alarms, d.now < x.sleep.due + Duration.ofMillis 1 := fun x mem =>
        sound.inTime x (List.mem_append_right _ mem)
      obtain ⟨t, u, w', diary, seen', turn', later, inTime', due⟩ :=
        rings_reach turn queue asleep (first_due sound asleep) inTime room waits seen
      exact ⟨[], u, t, w', diary, seen', d.ringing t, .rings queue later inTime' due,
        { k with begun := true }, rfl, turn', rfl, (List.append_nil _).symm⟩
  · obtain ⟨d', step, leads⟩ := takes_leads turn mappable queue
    exact leads.mono fun log c' now arrives => ⟨d', step, arrives⟩

/-- The stop has returned, and the diary goes on from that of a machine to that of one with which
nothing is left. -/
def Rested (back : List Frame) (d : Dorm) (log : List SleepEvent) (c : Scene) (_ : Instant) :
    Prop :=
  (c.frames = back ∧ c.fibers.Orderly c.current []) ∧
    ((sleeps (d.log ++ log)).map Sleep.task).Perm ((sleeps d.log).map Sleep.task ++ d.todo) ∧
    ∃ d' done, Dorm.Sound d' done ∧ d'.line = [] ∧ d'.log = d.log ++ log

/-- Nothing is left with a machine that has come to rest. -/
theorem Back.rested {log : List SleepEvent} (returned : Back back log c now)
    (sound : d.Sound done) (queue : d.queue = []) (alarms : d.alarms = []) :
    Rested back d log c now := by
  obtain ⟨rfl, back⟩ := returned
  have none : d.todo = [] := by
    rw [Dorm.todo, queue, alarms]
    rfl
  have nobody : d.line = [] := by
    rw [Dorm.line, Dorm.called, queue, alarms]
    rfl
  refine ⟨back, ?_, d, done, sound, nobody, (List.append_nil _).symm⟩
  rw [none, List.append_nil, List.append_nil]

/-- The stop returns when every sleep is over. -/
theorem rests_leads {d : Dorm} {k : Bench} {c : Scene} {done : List (Sleep × Nat)}
    (turn : p.AtTurn k d c) (sound : d.Sound done)
    (mappable : Mappable p.config.stackSize usable) (room : p.settings.maxEvents * 8 < rowLimit)
    (waits : 0 < p.settings.maxWait) : p.Leads k.back c d.now (Rested k.back d) := by
  by_cases left : d.queue ≠ [] ∨ d.alarms ≠ []
  · intro w seen inTime
    refine (steps_leads turn sound mappable room waits left w seen inTime).trans inTime ?_
    rintro log c' now ⟨d', step, k', from', turn', rfl, entered⟩
    obtain ⟨done', sound'⟩ := sound.step step
    have fewer := step.work_lt
    have leads := rests_leads turn' sound' mappable room waits
    rw [from'] at leads
    refine leads.mono ?_
    rintro more c'' now ⟨back, tasks, d'', done'', sound'', nobody, entered'⟩
    rw [entered, List.append_assoc] at entered' tasks
    exact ⟨back, tasks.trans (entered ▸ step.todo), d'', done'', sound'', nobody, entered'⟩
  · obtain ⟨queue, alarms⟩ : d.queue = [] ∧ d.alarms = [] := by
      simpa only [not_or, not_not] using left
    exact (turn.ends queue alarms room).mono fun _ _ _ returned =>
      returned.rested sound queue alarms
termination_by d.work

end Station

end Fibers.Script
