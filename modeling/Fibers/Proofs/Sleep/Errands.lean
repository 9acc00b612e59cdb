import Fibers.Proofs.Sleep.Hosting

/-!
What the run loop does with an entry of tasks that only sleep. Each entry is taken, its fiber does
what it has to do, and is accounted for: the machine makes one step, and the run loop comes to its
next turn. A fiber that goes on calls for its next sleep, or ends.
-/

namespace Fibers.Script

namespace Station

variable {p : Station} {k : Bench} {d : Dorm} {c u : Scene} {front : Frame} {id : FiberId}
  {body : Body} {cells : List Cell} {back rest : List Frame} {w : World} {now : Instant} {x : Datum}
  {verb label : String} {j : Dorm.Job} {q : List Dorm.Job} {worker : Option Nat}
  {usable block : Nat} {naps : List (String × Duration)} {y : Nap}
  {good : List SleepEvent → Scene → Instant → Prop}

theorem accounting_gently (accounts : front = .loopFiber (k.loop p) id ∨
      front = .loopCallback (k.loop p) id) (left : FiberState) :
    (proceedWith front (.left left)).Gently False := by
  rcases accounts with rfl | rfl
  · exact turnedFiber_gently _ _ _
  · exact turnedCallback_gently _ _ _

theorem accounting_quiet (accounts : front = .loopFiber (k.loop p) id ∨
      front = .loopCallback (k.loop p) id) (rest : List Frame) (current : Option FiberId)
    (t : Instant) : sleepEvents (front :: rest) current t = [] := by
  rcases accounts with rfl | rfl <;> rfl

/-- A fiber that has nothing more to do ends. -/
theorem ends_leads (work : p.AtWork k front id none 0 0 (d.cells p) d c)
    (frames : c.frames = [.fiberBody id]) (signal : c.signal = .done x) :
    p.Leads k.back c d.now (p.Arrives k.back d.log d) := by
  obtain ⟨u, does, steady, resumed, floor⟩ := ends_does work.floor
  refine .step (busy_inside work.floor) work.hosts.wait frames (fun t => by rw [frames]; rfl)
    (by rw [signal]; rfl) does (finish_gently _ _) ?_
  have hosts : Hosts p d (3 + k.begun.toNat) (1 + k.begun.toNat) 1
      { u with signal := .left .term } :=
    work.hosts.steady { steady with }
  have floor : Floor { u with signal := .left .term : Scene }.toView p.root [k.caller]
      (p.rootCell none :: ⟨id, .term, none, 1, some [.fiberEnd]⟩ :: (k.cells p ++ d.cells p)) :=
    floor.congr rfl rfl rfl
  obtain ⟨k', v, valid', same, does', steady', entered, floor'⟩ :=
    ended_does work.accounts work.valid floor
  refine .step (busy_inside floor) hosts.wait resumed (fun t => ?_) rfl does'
    (accounting_gently work.accounts .term) ?_
  · rw [show ({ u with signal := .left .term } : Scene).frames = _ from resumed]
    exact accounting_quiet work.accounts _ _ t
  · generalize k'.pooled = pooled at same
    subst same
    have turn : p.AtTurn { k with pooled := pooled } d { v with signal := .done .null } :=
      ⟨valid', hosts.settled.steady { steady' with }, floor'.congr rfl rfl rfl, entered, _, rfl⟩
    exact turn.arrives

/-- The first of some steps is started. -/
theorem startSteps_on (seen : p.Sees c now w) (verb label : String) (a : Action)
    (more : List Step) :
    ∃ v, p.Sees { c with frames := .report verb label :: (stepFrames label more ++ c.frames) }
        now v ∧
      (startSteps label (.perform verb a :: more)).on w = (perform label a).on v := by
  cases more with
  | nil =>
    obtain ⟨v, did, seen, -⟩ := seen.pushes (.report verb label)
    exact ⟨v, seen, Act.on_bind_ok did⟩
  | cons step more =>
    obtain ⟨u, did, seen, -⟩ := seen.pushes (.steps (step :: more) label)
    obtain ⟨v, did', seen, -⟩ := seen.pushes (.report verb label)
    exact ⟨v, seen, (Act.on_bind_ok did).trans (Act.on_bind_ok did')⟩

/-- What a fiber does with a call for a sleep. -/
theorem calls_on (work : p.AtWork k front id none 0 0 (d.cells p) d c) (seen : p.Sees c now w)
    (signal : c.signal = .done x) (verb label : String) (fs : List Frame) (duration : Duration)
    (steps : List Step) :
    ∃ v, p.Sees { c with frames := .answerClock :: .report verb label ::
        (stepFrames label steps ++ fs) } now v ∧
      (proceedWith (.steps (.perform verb (.fiber (.sleep duration)) :: steps) label) c.signal).on
          (w.popped fs) = (sleepFiber p.scheduler p.reactor duration).on v := by
  obtain ⟨u, seen, same⟩ := startSteps_on (seen.popped fs) verb label (.fiber (.sleep duration))
    steps
  obtain ⟨v, did, seen, -⟩ := seen.pushes .answerClock
  refine ⟨v, seen, ?_⟩
  rw [signal]
  refine same.trans ((Act.on_bind_ok did).trans ?_)
  exact sleep_eq work.floor seen.depicts duration

/-- The sleep of a fiber has begun, and the run loop accounts for it. -/
theorem sleeper_leads {fs : List Frame}
    (valid : k.Valid)
    (accounts : front = .loopFiber (k.loop p) id ∨ front = .loopCallback (k.loop p) id)
    (hosts : Hosts p d (3 + k.begun.toNat) (1 + k.begun.toNat) 1 c)
    (floor : Floor c.toView p.root [k.caller]
      (p.rootCell none :: ⟨id, .hold, none, 2, some fs⟩ :: (k.cells p ++ cells)))
    (waits : (d.cells p).Perm (⟨id, .hold, none, 1, some fs⟩ :: cells))
    (frames : c.frames = front :: p.under) (signal : c.signal = .left .hold) :
    p.Leads k.back c d.now (p.Arrives k.back d.log d) := by
  obtain ⟨u, does, steady, resumed, floor'⟩ := sleeper_does accounts
    (floor.perm (List.Perm.swap ..))
  refine .step (busy_inside floor) hosts.wait frames (fun t => ?_) (by rw [signal]) does
    (accounting_gently accounts .hold) ?_
  · rw [frames]
    exact accounting_quiet accounts _ _ t
  · have order : (⟨id, .hold, none, 1, some fs⟩ :: p.rootCell none :: (k.cells p ++ cells)).Perm
        (p.rootCell none :: (k.cells p ++ d.cells p)) :=
      (List.Perm.swap ..).trans (.cons _ (List.perm_middle.symm.trans (waits.symm.append_left _)))
    have turn : p.AtTurn k d { u with signal := .done .null } :=
      ⟨valid, hosts.settled.steady { steady with }, (floor'.perm order).congr rfl rfl rfl, resumed,
        _, rfl⟩
    exact turn.arrives

/-- The deadline of a sleep does not overflow in a run in which none does. -/
theorem calls_inTime (work : p.AtWork k front id none 0 0 (d.cells p) d c) (seen : p.Sees c now w)
    (inTime : InTime k.back w) {duration : Duration} {steps : List Step}
    (frames : c.frames = .steps (.perform verb (.fiber (.sleep duration)) :: steps) label :: rest)
    (signal : c.signal = .done x) : ∃ t, now.add? duration = some t := by
  refine Option.ne_none_iff_exists'.mp fun late => ?_
  obtain ⟨v, seen', goes⟩ := calls_on work seen signal verb label rest duration steps
  obtain ⟨m, late⟩ : ∃ m, c.timers.add v.clock duration (.wake p.scheduler id) false = (m, none) :=
    ⟨_, by rw [seen'.clock, Timers.add, late]⟩
  have begun : ∀ r, c.fibers.get? id = some r → r.entry = none := by
    obtain ⟨⟨r, found, _, entry, _⟩, _⟩ := work.floor.holds _ List.mem_cons_self
    intro s known
    obtain rfl := Option.some.inj (known.symm.trans found)
    exact entry
  obtain ⟨u, shows, bad⟩ := sleepFiber_overflows seen'.depicts work.floor.current begun late
  have gentle := sleepFiber_gently p.scheduler p.reactor duration v
  rcases did : (sleepFiber p.scheduler p.reactor duration).on v with ⟨r, v'⟩
  rw [did] at shows bad gentle
  subst bad
  have round := seen.moves work.hosts.wait frames (goes.trans did)
    (gentle.timing.trans seen'.timing)
  exact inTime _ _ (.one (busy_inside work.floor w seen.depicts) round)
    (shows.told _).thread.signal

/-- A fiber calls for a sleep. Its timer is armed, the fiber gives way, and the run loop goes on. -/
theorem calls_leads (work : p.AtWork k front id none 0 0 (d.cells p) d c) (duration : Duration)
    (more : List (String × Duration))
    (frames : c.frames =
      .steps (.perform verb (.fiber (.sleep duration)) :: napSteps more) label :: [.fiberBody id])
    (signal : c.signal = .done x) :
    p.Leads k.back c d.now
      (p.Arrives k.back d.log (d.goesOn id label ((verb, duration) :: more))) := by
  intro w seen inTime
  let nap : Nap := ⟨⟨id, label, duration, d.now, none⟩, (sleeps d.log).length, verb, more⟩
  let d' : Dorm := d.goesOn id label ((verb, duration) :: more)
  have current : c.current = some id := work.floor.current
  have events : w.sleepEvents = [.begun id label duration d.now] := by
    rw [seen.sleepEvents, frames, current]
    rfl
  obtain ⟨t', due⟩ := calls_inTime work seen inTime frames signal
  obtain ⟨m, wake, armed, rings⟩ := work.hosts.rings.add (x := nap) rfl due
  obtain ⟨v, seen₁, goes⟩ := calls_on work seen signal verb label [.fiberBody id] duration
    (napSteps more)
  -- The fiber has a handle for its timer before it gives way.
  let v₁ : Scene := { c with
    frames := .answerClock :: .report verb label ::
      (stepFrames label (napSteps more) ++ [.fiberBody id]) }
  have retained : Floor (p.sleeping v₁ id m).toView id [p.root, k.caller]
      (⟨id, .exec, none, 2, none⟩ :: p.rootCell (some (front :: p.under)) ::
        (k.cells p ++ d.cells p)) := work.floor.retain.congr rfl rfl rfl
  obtain ⟨t, -, yields, left, floor, resumed⟩ := retained.handed .hold (by decide)
  obtain ⟨v', did, shows⟩ := sleepFiber_armed (c := v₁) seen₁.depicts current yields
    (d := duration) (by rw [seen₁.clock]; exact armed)
  have gentle := sleepFiber_gently p.scheduler p.reactor duration v
  rw [did] at gentle
  rw [left] at did
  obtain ⟨w', round, seen', -⟩ := seen.turns work.hosts.wait frames (goes.trans did)
    (seen₁.after gentle shows)
  refine .first (busy_inside work.floor w seen.depicts) round events inTime fun inTime' => ?_
  have hosts : Hosts p d' (3 + k.begun.toNat) (1 + k.begun.toNat) 1
      { (p.sleeping v₁ id m).followed t with signal := .left .hold } :=
    (work.hosts.sleeps rings).steady ⟨rfl, rfl, rfl, rfl, rfl, rfl, rfl⟩
  have leads := sleeper_leads (d := d') work.valid work.accounts hosts (floor.congr rfl rfl rfl)
    (d.goesOn_cells p id label verb duration more) resumed rfl
  exact (leads w' seen' inTime').mono fun _ _ _ reached => reached.entered

/-- A fiber goes on: it calls for its next sleep or ends. -/
theorem goesOn_leads (work : p.AtWork k front id none 0 0 (d.cells p) d c)
    (frames : c.frames = stepFrames label (napSteps naps) ++ [.fiberBody id])
    (signal : c.signal = .done x) :
    p.Leads k.back c d.now (p.Arrives k.back d.log (d.goesOn id label naps)) := by
  cases naps with
  | nil => exact ends_leads work frames signal
  | cons nap naps => exact calls_leads work nap.2 naps frames signal

/-- The body of a task begins. -/
theorem begins_leads (work : p.AtWork k front id (some (.script block label)) 0 0 (d.cells p) d c)
    (frames : c.frames = [.fiberStart id]) (signal : c.signal = .done x)
    (steps : p.program.block block = napSteps naps) :
    p.Leads k.back c d.now (p.Arrives k.back d.log (d.goesOn id label naps)) := by
  obtain ⟨entry, floor⟩ := work.floor.begun
  let begun : Scene :=
    { c with fibers := (c.fibers.takeEntry id).1, frames := [.fiberBody id] }
  let u : Scene := { begun with frames := .steps (napSteps naps) label :: [.fiberBody id] }
  have does : p.Does { c with frames := [] } (startFiber id) (.done .null) u := by
    have does := startFiber_does (p := p) (c := { c with frames := [] }) entry
      (startBlock_does (c := begun) block label)
    rw [steps] at does
    exact does
  refine .step (busy_inside work.floor) work.hosts.wait frames (fun t => by rw [frames]; rfl)
    (by rw [signal]; rfl) does (startFiber_gently _) ?_
  have work : p.AtWork k front id none 0 0 (d.cells p) d { u with signal := .done .null } :=
    { work with
      hosts := work.hosts.steady ⟨rfl, rfl, rfl, rfl, rfl, rfl, rfl⟩
      floor := floor.congr rfl rfl rfl }
  cases naps with
  | nil =>
    refine .step (busy_inside work.floor) work.hosts.wait rfl (fun t => rfl) rfl (.pure _)
      (.pure _) ?_
    exact goesOn_leads (work.told [.fiberBody id] (.done .null) c.reports) rfl rfl
  | cons nap naps => exact goesOn_leads work rfl rfl

/-- The callback that has queued the fiber of a sleep lets go of it. -/
theorem rouses_leads (work : p.AtWork k front id none 1 0 (y.cell p 2 :: (d.taking q).cells p)
      (d.taking (q ++ [.risen y])) c)
    (frames : c.frames = [.release [.scheduler p.scheduler, .fiber y.sleep.fiber], .fiberBody id])
    (signal : c.signal = .done x) :
    p.Leads k.back c d.now (p.Arrives k.back d.log (d.taking (q ++ [.risen y]))) := by
  let g := y.sleep.fiber
  let d' : Dorm := d.taking (q ++ [.risen y])
  let known : List Cell := ⟨id, .exec, none, 1, none⟩ :: p.rootCell (some (front :: p.under)) ::
    k.cells p
  have handles := work.hosts.handles
  have waits : (known ++ y.cell p 2 :: (d.taking q).cells p).Perm
      (y.cell p 2 :: (known ++ (d.taking q).cells p)) := List.perm_middle
  have floor : Floor c.toView id [p.root, k.caller]
      (y.cell p 2 :: (known ++ (d.taking q).cells p)) := work.floor.perm waits
  have light : ∀ r, c.fibers.get? g = some r → r.entry = none ∨ 1 < r.handles := by
    obtain ⟨⟨r, found, _, entry, _⟩, _⟩ := floor.holds _ List.mem_cons_self
    intro s known
    obtain rfl := Option.some.inj (known.symm.trans found)
    exact .inl entry
  let v : Scene := { c with frames := [.fiberBody id], handles := c.handles - 1 }
  have does : p.Does { c with frames := [.fiberBody id] }
      (proceed (.done x) (.release [.scheduler p.scheduler, .fiber g])) (.done x) (v.freed g) := by
    refine Does.bind (Frees.does (.cons (releaseOne_scheduler_does ?_)
      (.cons (releaseOne_fiber_does light) (.nil _)))) (.pure _)
    change 1 < c.handles
    omega
  refine .step (busy_inside floor) work.hosts.wait frames (fun t => by rw [frames]; rfl)
    (by rw [signal]; rfl) does (.bind (release_gently _) fun _ => .pure _) ?_
  have freed : Floor (v.freed g).toView id [p.root, k.caller]
      (y.cell p 1 :: (known ++ (d.taking q).cells p)) :=
    (Floor.release_several (v := v.toView) (floor.congr rfl rfl rfl) (Nat.le_refl 2)).freed
  have cells : (y.cell p 1 :: (known ++ (d.taking q).cells p)).Perm (known ++ d'.cells p) := by
    refine List.perm_middle.symm.trans (.append_left _ ?_)
    simp only [d', Dorm.cells, Dorm.taking, List.flatMap_append, List.flatMap_singleton,
      Dorm.Job.cells, List.append_assoc]
    exact List.perm_middle.symm
  have fewer : 3 + k.begun.toNat + d'.dues ≤ c.handles - 1 := by
    change 3 + k.begun.toNat + 1 + d'.dues ≤ c.handles at handles
    omega
  have hosts : Hosts p d' (3 + k.begun.toNat) (1 + k.begun.toNat) 1 v :=
    { work.hosts with handles := fewer }
  have ends : p.AtWork k front id none 0 0 (d'.cells p) d' { v.freed g with signal := .done x } :=
    ⟨work.valid, work.accounts, hosts.steady ⟨rfl, rfl, rfl, rfl, rfl, rfl, rfl⟩,
      (freed.perm cells).congr rfl rfl rfl⟩
  exact ends_leads ends rfl rfl

/-- The callback that ends a sleep queues the fiber. -/
theorem wakes_leads (work : p.AtWork k front id (some (.timer (y.callback p.scheduler))) 2 1
      (y.cell p 1 :: (d.taking q).cells p) (d.taking q) c)
    (frames : c.frames = [.fiberStart id]) (signal : c.signal = .done x) :
    p.Leads k.back c d.now (p.Arrives k.back d.log (d.taking (q ++ [.risen y]))) := by
  let g := y.sleep.fiber
  let known : List Cell := ⟨id, .exec, none, 1, none⟩ :: p.rootCell (some (front :: p.under)) ::
    k.cells p
  obtain ⟨entry, floor⟩ := work.floor.begun
  let u : Scene :=
    { c with shared := { c.shared with queue := c.shared.queue ++ [⟨.fiber g, none⟩] } }
  let v : Scene :=
    { u with
      fibers := (c.fibers.takeEntry id).1.retain g
      frames := [.release [.scheduler p.scheduler, .fiber g], .fiberBody id] }
  have does : p.Does { c with frames := [] } (startFiber id) (.done .null) v :=
    startFiber_does (p := p) (c := { c with frames := [] }) entry
      ((push_does _).bind ((retain_fiber_does g).bind ((enqueue_does _).bind (.pure _))))
  refine .step (busy_inside work.floor) work.hosts.wait frames (fun t => by rw [frames]; rfl)
    (by rw [signal]; rfl) does (startFiber_gently _) ?_
  have waits : (known ++ y.cell p 1 :: (d.taking q).cells p).Perm
      (y.cell p 1 :: (known ++ (d.taking q).cells p)) := List.perm_middle
  have floor : Floor v.toView id [p.root, k.caller]
      (y.cell p 2 :: (known ++ (d.taking q).cells p)) := (floor.perm waits).retain.congr rfl rfl rfl
  have hosts : Hosts p (d.taking (q ++ [.risen y])) (3 + k.begun.toNat + 1)
      (1 + k.begun.toNat) 1 u := work.hosts.roused
  exact rouses_leads ⟨work.valid, work.accounts,
    hosts.steady ⟨rfl, rfl, rfl, rfl, rfl, rfl, rfl⟩,
    (floor.perm List.perm_middle.symm).congr rfl rfl rfl⟩ rfl rfl

/-- The answer of a call that reads the clock is reported. -/
theorem answers_leads (work : p.AtWork k front id none 0 0 cells d c)
    (frames : c.frames = .answerClock :: .report verb label :: rest) (signal : c.signal = .done x)
    (leads : ∀ reports, p.Leads back
      { c with frames := rest, signal := .done .null, reports := reports } now good) :
    p.Leads back c now good := by
  intro w seen inTime
  obtain ⟨t, did⟩ : ∃ t, (proceedWith .answerClock c.signal).on
      (w.popped (.report verb label :: rest)) =
        (.ok (.done t), w.popped (.report verb label :: rest)) := by
    rw [signal]
    exact ⟨_, rfl⟩
  obtain ⟨w', round, seen', -⟩ := seen.turns work.hosts.wait frames did (seen.popped _)
  have quiet : w.sleepEvents = [] := by
    rw [seen.sleepEvents, frames]
    rfl
  refine .first (busy_inside work.floor w seen.depicts) round quiet inTime fun inTime' => ?_
  obtain ⟨t', goes⟩ := report_told verb label (.done t)
  have reports : p.Leads back { c with frames := .report verb label :: rest, signal := .done t }
      now good :=
    .step (busy_inside (work.floor.congr rfl rfl rfl)) work.hosts.wait rfl (fun t => rfl) goes
      ((report_does verb label t').bind (.pure _)) (.bind (report_gently _ _ _) fun _ => .pure _)
      (leads _)
  exact reports w' seen' inTime'

/-- A fiber that its wake has queued is back from its sleep, and goes on. -/
theorem rises_leads (work : p.AtWork k front y.sleep.fiber none 1 1 ((d.taking q).cells p)
      (d.taking q) c) (frames : c.frames = y.frames p) (signal : c.signal = .done x) :
    p.Leads k.back c d.now (p.Arrives k.back d.log
      ((d.rising q y.sleep.fiber).goesOn y.sleep.fiber y.sleep.label y.rest)) := by
  let id := y.sleep.fiber
  let d' : Dorm := d.rising q id
  let fs : List Frame := .answerClock :: .report y.verb y.sleep.label ::
    (stepFrames y.sleep.label (napSteps y.rest) ++ [.fiberBody id])
  have handles := work.hosts.handles
  have held := work.hosts.held
  let v : Scene := { c with frames := fs, handles := c.handles - 1, held := c.held - 1 }
  have does : p.Does { c with frames := fs }
      (proceed (.done x) (.release [.scheduler p.scheduler, .reactor p.reactor])) (.done x) v :=
    (release_both_does (c := { c with frames := fs }) (show 1 < c.handles by omega)
      (show 1 < c.held by omega)).1.bind (.pure _)
  have ended : sleepEvents c.frames c.current d.now = [.ended id d.now] := by
    rw [frames, work.floor.current]
    rfl
  refine .enters (busy_inside work.floor) work.hosts.wait frames ended (by rw [signal]; rfl) does
    (.bind (release_gently _) fun _ => .pure _) ?_
  have work : p.AtWork k front id none 0 0 (d'.cells p) d' { v with signal := .done x } := by
    refine { work with hosts := ?_, floor := work.floor.congr rfl rfl rfl }
    refine { work.hosts with rings := ?_, handles := ?_, held := ?_ }
    · simp only [d', Dorm.rising, sleeps_ended, List.length_map]
      exact work.hosts.rings
    · change _ + (d.taking q).dues ≤ c.handles - 1
      omega
    · change _ + (d.taking q).lends ≤ c.held - 1
      omega
  refine answers_leads work rfl rfl fun reports => ?_
  exact (goesOn_leads (work.told _ (.done .null) reports) rfl rfl).mono
    fun _ _ _ reached => reached.entered

/-- A turn that takes a fiber comes to that fiber. -/
theorem takes_fiber {st : FiberState} {body : Option Body} {fs : List Frame}
    (turn : p.AtTurn k d c) (queue : d.queue = j :: q) (entry : j.entry p = ⟨.fiber id, worker⟩)
    (pin : worker = none ∨ worker = some 0)
    (cell : j.cells p = [⟨id, st, body, 1, some fs⟩]) (resumable : st.isResumable = true)
    (leads : ∀ u, p.AtWork k (.loopFiber (k.loop p) id) id body j.dues j.lends
      ((d.taking q).cells p) (d.taking q) u → u.frames = fs → u.signal = .done .null →
        p.Leads k.back u d.now good) : p.Leads k.back c d.now good := by
  have first : c.shared.queue = ⟨.fiber id, worker⟩ :: q.map (Dorm.Job.entry p) := by
    rw [turn.hosts.queue, queue, List.map_cons, entry]
  have waits : d.cells p = ⟨id, st, body, 1, some fs⟩ :: (d.taking q).cells p := by
    rw [Dorm.cells, queue, List.flatMap_cons, cell]
    rfl
  have floor := turn.floor
  rw [waits] at floor
  obtain ⟨u, does, steady, entered, floor⟩ := takesFiber_does pin first resumable
    (floor.perm (.cons _ List.perm_middle))
  obtain ⟨x, signal⟩ := turn.signal
  refine .step (busy_inside turn.floor) turn.hosts.wait turn.frames
    (fun t => by rw [turn.frames]; rfl) (by rw [signal]; rfl) does (turn_gently _) ?_
  refine leads _ ⟨turn.valid, .inl rfl, ?_, floor.congr rfl rfl rfl⟩ entered rfl
  exact (turn.hosts.taking queue).steady { steady with }

/-- A turn that takes a callback comes to the fiber that is to run it. -/
theorem takes_callback (turn : p.AtTurn k d c) (mappable : Mappable p.config.stackSize usable)
    (queue : d.queue = j :: q) (entry : j.entry p = ⟨.callback body, worker⟩)
    (pin : worker = none ∨ worker = some 0) :
    ∃ k' id, k'.back = k.back ∧ (∀ x ∈ d.cells p, x.id ≠ id) ∧ ∀ good,
      (∀ u, p.AtWork k' (.loopCallback (k'.loop p) id) id (some body) j.dues j.lends (d.cells p)
        (d.taking q) u → u.frames = [.fiberStart id] → u.signal = .done .null →
          p.Leads k.back u d.now good) → p.Leads k.back c d.now good := by
  have first : c.shared.queue = ⟨.callback body, worker⟩ :: q.map (Dorm.Job.entry p) := by
    rw [turn.hosts.queue, queue, List.map_cons, entry]
  obtain ⟨k', id, u, valid, same, does, steady, entered, floor⟩ :=
    takesCallback_does pin mappable turn.valid first turn.floor
  generalize k'.pooled = pooled at same
  subst same
  have work : p.AtWork { k with pooled := pooled } _ id (some body) j.dues j.lends (d.cells p)
      (d.taking q) { u with signal := .done .null } :=
    ⟨valid, .inr rfl, (turn.hosts.taking queue).steady { steady with }, floor.congr rfl rfl rfl⟩
  refine ⟨{ k with pooled := pooled }, id, rfl, fun x mem => work.new mem, fun good leads => ?_⟩
  obtain ⟨x, signal⟩ := turn.signal
  refine .step (busy_inside turn.floor) turn.hosts.wait turn.frames
    (fun t => by rw [turn.frames]; rfl) (by rw [signal]; rfl) does (turn_gently _) ?_
  exact leads _ work entered rfl

/-- A task begins. -/
theorem fresh_leads {y : Chore} (turn : p.AtTurn k d c)
    (mappable : Mappable p.config.stackSize usable) (queue : d.queue = .fresh y :: q) :
    ∃ id, (∀ z ∈ d.line, z.sleep.fiber ≠ id) ∧ p.Leads k.back c d.now
      (p.Arrives k.back d.log ((d.taking q).goesOn id y.label y.naps)) := by
  have fits : y.Fits p := turn.hosts.fits (.fresh y) (queue ▸ List.mem_cons_self)
  cases own : y.fiber? with
  | some id =>
    have entry : Dorm.Job.entry p (.fresh y) = ⟨.fiber id, y.worker⟩ := by
      simp only [Dorm.Job.entry, Chore.entry, own]
    have cell : Dorm.Job.cells p (.fresh y) =
        [⟨id, .init, some y.body, 1, some [.fiberStart id]⟩] := by
      simp only [Dorm.Job.cells, Chore.cells, own]
    refine ⟨id, fun z mem same => ?_, takes_fiber turn queue entry fits.pin cell rfl
      fun u work frames signal => begins_leads work frames signal fits.block⟩
    have known : ∀ x ∈ d.cells p, x ∈ p.rootCell none :: (k.cells p ++ d.cells p) :=
      fun x mem => List.mem_cons_of_mem _ (List.mem_append_right _ mem)
    have mine : ⟨id, .init, some y.body, 1, some [.fiberStart id]⟩ ∈ d.cells p := by
      rw [Dorm.cells, queue, List.flatMap_cons, cell]
      exact List.mem_cons_self
    cases List.inj_on_of_nodup_map turn.floor.distinct (known _ (Dorm.cell_mem mem p))
      (known _ mine) same
  | none =>
    have entry : Dorm.Job.entry p (.fresh y) = ⟨.callback y.body, y.worker⟩ := by
      simp only [Dorm.Job.entry, Chore.entry, own]
    have waits : d.cells p = (d.taking q).cells p := by
      rw [Dorm.cells, queue, List.flatMap_cons]
      simp only [Dorm.Job.cells, Chore.cells, own]
      rfl
    obtain ⟨k', id, from', new, leads⟩ := takes_callback turn mappable queue entry fits.pin
    refine ⟨id, fun z mem => new _ (Dorm.cell_mem mem p), leads _ fun u work frames signal => ?_⟩
    rw [waits] at work
    have leads := begins_leads work frames signal fits.block
    rw [from'] at leads
    exact leads

/-- What the run loop does with the first entry is a step of the machine. -/
theorem takes_leads (turn : p.AtTurn k d c) (mappable : Mappable p.config.stackSize usable)
    (some : d.queue ≠ []) :
    ∃ d', Dorm.Step d d' ∧ p.Leads k.back c d.now (p.Arrives k.back d.log d') := by
  rcases queue : d.queue with _ | ⟨x | y | y, q⟩
  · exact absurd queue some
  · obtain ⟨id, new, leads⟩ := fresh_leads turn mappable queue
    exact ⟨_, .begins id queue new, leads⟩
  · refine ⟨_, .wakes queue, ?_⟩
    have waits : d.cells p = y.cell p 1 :: (d.taking q).cells p := by
      rw [Dorm.cells, queue, List.flatMap_cons]
      rfl
    obtain ⟨k', id, from', -, leads⟩ := takes_callback turn mappable queue rfl (.inl rfl)
    refine leads _ fun u work frames signal => ?_
    rw [waits] at work
    have leads := wakes_leads work frames signal
    rw [from'] at leads
    exact leads
  · exact ⟨_, .rises queue, takes_fiber turn queue rfl (.inl rfl) rfl rfl
      fun u work frames signal => rises_leads work frames signal⟩

end Station

end Fibers.Script
