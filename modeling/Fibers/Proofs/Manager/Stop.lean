import Fibers.Proofs.Manager.Preparing
import Fibers.Proofs.Manager.Turning

/-!
The first stop of a manager, as a whole. The call returns at once, if there is nothing to do, or
resumes the root fiber; each round goes from one phase to the next; and when the stop has returned,
nothing is left.
-/

namespace Fibers.Script

/-- The scene after a stop was asked for. -/
def Scene.stopped (c : Scene) : Scene := { c with shared := c.shared.askStop.beginStop }

namespace Station

variable {p : Station} {b : Books} {c u : Scene} {w w' : World} {d : Datum} {s : Signal}
  {verb label name : String} {rest : List Step} {base back : List Frame} {usable : Nat}
  {notes opening : List Note} {k : Bench}

/-- Whether the run loop may end. -/
def finished (c : Scene) : Bool := c.table.pending == 0 && !c.timers.hasTimer && c.shared.isDone

theorem tickleTimes_does (n : Nat) : p.Does c (tickleTimes p.scheduler n) () c := by
  induction n with
  | zero => exact .pure ()
  | succ n ih => exact tickle_does.bind ih

/-- The first part of a stop, up to the question whether there is anything to do. -/
theorem stop_ends {post : Except Stop Signal → Scene → Prop} (one : p.config.threads = 1)
    (root : c.fibers.state p.root = .init) (shows : p.Depicts c w)
    (quiet : finished c.stopped = true → post (.ok (.done .null)) c.stopped)
    (busy : finished c.stopped = false → ∀ x, p.IsScheduler c.shared.askStop c.handles x →
      ∀ v, p.Depicts c.stopped v → p.Ends v (stopWorkers p.scheduler x) post) :
    p.Ends w (stop p.scheduler) post := by
  refine (updateShared_does _).ends_bind shows fun w₁ shows₁ => ?_
  obtain ⟨x, found, is⟩ := shows₁.scheduler
  have asked : (schedulerRecord p.scheduler).on w₁ = (.ok x, w₁) := by
    rw [schedulerRecord_on p.scheduler w₁, found]
    rfl
  have only : w₁.callerOnly x = true := by
    have state : w₁.fibers.state p.root = .init := by
      rw [shows₁.fibers]
      exact root
    unfold World.callerOnly
    rw [is.root]
    dsimp only
    rw [is.config, one, state]
    rfl
  refine Ends.after asked (Ends.get ?_)
  dsimp only
  rw [if_pos only]
  refine (Does.log _ _).ends_bind shows₁ fun w₂ shows₂ => ?_
  refine (updateShared_does _).ends_bind shows₂ fun w₃ shows₃ => ?_
  have shows₃ : p.Depicts c.stopped w₃ := shows₃
  have stops : (isStopping p.scheduler).on w₃ = (.ok (finished c.stopped), w₃) := by
    rw [finished, ← shows₃.isStopping]
    rfl
  refine Ends.after stops ?_
  cases done : finished c.stopped with
  | true => exact .pure shows₃ (quiet done)
  | false => exact busy done x is w₃ shows₃

/-- The rest of a stop, up to the resume of the root fiber. -/
theorem stopWorkers_does {x : SchedulerRecord} (has : x.root = some p.root)
    (owner : x.owner = some mainThread) (root : c.fibers.state p.root = .init)
    (waits : finished c = false) (stopping : c.shared.beginStop = c.shared)
    {t : FiberTable.Transfer Body}
    (ok : (c.fibers.retain p.root).resume c.current p.root true = .ok t) :
    p.Does c (stopWorkers p.scheduler x) (toldSignal t.told)
      (Scene.followed
        { c with
          fibers := c.fibers.retain p.root
          frames := .release [.fiber p.root] :: .stopJoin p.scheduler :: c.frames } t) := by
  refine Does.get fun w shows => ?_
  have mine : w.stopFault? p.scheduler x = none := by
    rw [World.stopFault?, owner]
    dsimp only
    rw [if_pos shows.running.symm]
  dsimp only
  rw [mine]
  have begins := updateShared_does (p := p) (c := c) Shared.beginStop
  rw [stopping] at begins
  refine begins.bind ((tickleTimes_does _).bind ((push_does _).bind ?_))
  rw [has]
  refine Does.get fun v shows => ?_
  have enters : ((v.fibers.state p.root).isResumable && !v.isStopping p.scheduler) = true := by
    have state : v.fibers.state p.root = .init := by
      rw [shows.fibers]
      exact root
    have goes : v.isStopping p.scheduler = false := shows.isStopping.trans waits
    rw [state, goes]
    rfl
  rw [if_pos enters]
  exact (retain_fiber_does _).bind ((push_does _).bind (resume_does ok))

/-- What is finished is settled. -/
theorem settled_of_finished (store : Store p b c) (hand : b.hand = []) (risen : b.risen = [])
    (done : finished c = true) : Settled b.notes c := by
  simp only [finished, Bool.and_eq_true, beq_iff_eq, Bool.not_eq_true', Shared.isDone,
    List.isEmpty_iff] at done
  obtain ⟨⟨pending, timers⟩, ⟨⟨-, -⟩, queue⟩, active⟩ := done
  exact store.settled (store.idle hand queue pending timers) risen queue active pending timers

/-- A waiting fiber does not run. -/
theorem crew_rests (b : Books) (p : Station) : ∀ x ∈ b.crew p, x.state ≠ .exec := by
  intro x mem
  obtain ⟨id, -, rfl⟩ := List.mem_map.mp mem
  cases b.post id <;> exact nofun

/-- The stop has resumed the root fiber, which has not begun; nothing else is different. -/
structure Opened (p : Station) (b : Books) (c : Scene) (k : Bench) (u : Scene) : Prop where
  frames : u.frames = [.fiberStart p.root]
  signal : u.signal = .done .null
  floor : Floor u.toView p.root [k.caller]
    (⟨p.root, .exec, some (.root p.scheduler), 2, none⟩ :: k.callerCell p :: b.crew p)
  wait : u.wait = none
  shared : u.shared = c.shared.askStop.beginStop
  table : u.table = c.table
  timers : u.timers = c.timers
  names : u.names = c.names
  handles : u.handles = c.handles + 1
  held : u.held = c.held

/-- The stop resumes the root fiber. -/
theorem opens_root (h : p.Prepares b c) {held : Scene}
    (same : held = { c with
      frames := .release [.scheduler p.scheduler] :: back
      handles := c.handles + 1 }) {x : SchedulerRecord}
    (is : p.IsScheduler held.shared.askStop held.handles x)
    (busy : finished held.stopped = false) (wait : c.wait = none) :
    ∃ k u, k.back = back ∧ k.begun = false ∧
      p.Does held.stopped (stopWorkers p.scheduler x) (.done .null) u ∧
      p.Opened b c k { u with signal := .done .null } := by
  let waits : Scene :=
    { held.stopped with
      fibers := c.fibers.retain p.root
      frames := p.calling back }
  have ground := h.stock.ground
  rw [h.known, h.chain] at ground
  have root : c.fibers.state p.root = .init := (ground.holds p.freshRoot List.mem_cons_self).state
  have ground : Ground waits.toView [] (⟨p.root, .init, some (.root p.scheduler), 2,
      some [.fiberStart p.root]⟩ :: b.crew p) := by
    subst same
    exact ground.retain.congr rfl rfl rfl
  obtain ⟨t, caller, entry, ok, told, floor, entered⟩ := ground.entered (crew_rests b p)
  have does := stopWorkers_does (c := held.stopped) is.root is.owner (same ▸ root) busy rfl
    (t := t) (by subst same; exact ok)
  rw [told] at does
  subst same
  refine ⟨⟨caller, entry, back, ⟨0⟩, false, []⟩, waits.followed t, rfl, rfl, does, ?_⟩
  exact ⟨entered, rfl, (floor.perm (List.Perm.swap ..)).congr rfl rfl rfl, wait, rfl, rfl, rfl, rfl,
    rfl, rfl⟩

/-- The root fiber is about to begin. -/
theorem Opened.phase (h : p.Opened b c k u) (prepares : p.Prepares b c) (from' : k.back = back) :
    Phase p back b.notes u := by
  let seat : Seat :=
    ⟨[⟨p.root, .exec, some (.root p.scheduler), 2, none⟩, k.callerCell p], p.root, [k.caller], [],
      [], 2, 1, 0⟩
  have live : Live p seat (b.seated seat b.spare) u := by
    refine .of_store prepares.stock.toStore ⟨?_, h.table, h.timers, h.names⟩ h.floor ?_
      prepares.hand prepares.risen ?_ ?_ ?_ ?_ ?_
    · rw [h.shared]
      rfl
    · exact List.forall_mem_cons.mpr ⟨nofun, List.forall_mem_cons.mpr ⟨nofun, nofun⟩⟩
    · rw [prepares.due, h.handles]
      change 2 + c.handles ≤ 1 + (c.handles + 1)
      omega
    · exact Nat.le_of_eq (by rw [prepares.lent, h.held])
    · rw [h.shared]
      exact prepares.active
    · rw [h.shared]
      rfl
    · rw [h.shared]
      rfl
  exact .opening k from' live h.frames ⟨_, h.signal⟩ h.wait prepares.spare rfl

/-- The round in which the stop is called. It is over at once if there is nothing to do; else the
root fiber is resumed. -/
theorem stop_calls (one : p.config.threads = 1) (shows : p.Depicts c w) (h : p.Prepares b c)
    (frames : c.frames = .steps (.perform verb (.scheduler (.stop name)) :: rest) label :: base)
    (signal : c.signal = .done d) (wait : c.wait = none)
    (named : c.names.schedulers.get? name = some p.scheduler) (round : w.round = some w')
    {held : Scene}
    (same : held = { c with
      frames := .release [.scheduler p.scheduler] :: stopFrames verb label rest base
      handles := c.handles + 1 }) :
    ∃ c', p.Depicts c' w' ∧
      ((finished held.stopped = true ∧ c' = { held.stopped with signal := .done .null }) ∨
        finished held.stopped = false ∧ ∃ k, k.back = stopFrames verb label rest base ∧
          k.begun = false ∧ p.Opened b c k c') := by
  let back := stopFrames verb label rest base
  have ground := h.stock.ground
  rw [h.known, h.chain] at ground
  have root : c.fibers.state p.root = .init := (ground.holds p.freshRoot List.mem_cons_self).state
  have root : held.fibers.state p.root = .init := same ▸ root
  let outcome : Signal → Scene → Prop := fun s u =>
    finished held.stopped = true ∧
        { u with signal := s } = { held.stopped with signal := .done .null } ∨
      finished held.stopped = false ∧ ∃ k, k.back = back ∧ k.begun = false ∧
        p.Opened b c k { u with signal := s }
  have starts : proceedWith (.steps (.perform verb (.scheduler (.stop name)) :: rest) label)
      c.signal = startSteps label (.perform verb (.scheduler (.stop name)) :: rest) := by
    rw [signal]
    rfl
  have calls : p.Ends (w.popped base)
      (startSteps label (.perform verb (.scheduler (.stop name)) :: rest)) fun r u =>
        outcome (ending r) u := by
    refine startSteps_ends (shows.popped base) fun v₁ told₁ => ?_
    have asked : (schedulerNamed name).on v₁ = (.ok p.scheduler, v₁) := by
      rw [schedulerNamed, Act.on_bind_get, told₁.names, Script.named, named]
      rfl
    refine Ends.after asked ((push_does _).ends_bind told₁ fun v₂ told₂ => ?_)
    have holds : p.Does { c with frames := back } (holdScheduler p.scheduler) () held :=
      same ▸ retain_scheduler_does.bind (push_does _)
    refine holds.ends_bind told₂ fun v₃ told₃ => ?_
    refine stop_ends one root told₃ (fun done => .inl ⟨done, rfl⟩) fun busy x is v told => ?_
    obtain ⟨k, u, from', begun, does, opened⟩ := opens_root h same is busy wait
    exact does.ends told (.inr ⟨busy, k, from', begun, opened⟩)
  obtain ⟨u, s, shows', -, ended⟩ := shows.runs wait frames outcome (starts ▸ calls) round
  exact ⟨_, shows', ended⟩

/-- The round in which the stop is called leads to its first phase, or to its last one. -/
theorem stop_goes (one : p.config.threads = 1) (shows : p.Depicts c w) (h : p.Prepares b c)
    (frames : c.frames = .steps (.perform verb (.scheduler (.stop name)) :: rest) label :: base)
    (signal : c.signal = .done d) (wait : c.wait = none)
    (named : c.names.schedulers.get? name = some p.scheduler) (round : w.round = some w') :
    ∃ c', p.Depicts c' w' ∧ Phase p (stopFrames verb label rest base) b.notes c' := by
  have enough : 1 ≤ c.handles := by
    have enough := h.stock.handles
    rw [h.due] at enough
    omega
  let held : Scene :=
    { c with
      frames := .release [.scheduler p.scheduler] :: stopFrames verb label rest base
      handles := c.handles + 1 }
  obtain ⟨c', shows', outcome⟩ :=
    stop_calls one shows h frames signal wait named round (rfl : held = _)
  refine ⟨c', shows', ?_⟩
  rcases outcome with ⟨done, rfl⟩ | ⟨-, k, from', -, opened⟩
  · have store : Store p b held.stopped := h.stock.toStore.refit
      ⟨rfl, rfl, rfl, rfl, rfl, rfl⟩ ⟨rfl, rfl, rfl, rfl⟩ (Nat.le_succ _) (Nat.le_refl _)
    have settled := settled_of_finished store h.hand h.risen done
    exact .finishing (settled.congr rfl rfl rfl rfl) rfl ⟨_, rfl⟩ wait h.order
      (Nat.succ_le_succ enough)
  · exact opened.phase h from'

/-- A thread inside a fiber is not on its own stack. -/
theorem Depicts.inside_fibers (shows : p.Depicts c w) {a g : FiberId} {chain : List FiberId}
    {cells : List Cell} (floor : Floor c.toView a (g :: chain) cells) : w.inFiber = true := by
  rw [World.inFiber, shows.fibers, shows.thread.current]
  exact floor.ground.order.inFiber_iff.mpr ⟨a, g, chain, floor.current, rfl⟩

/-- Nothing is left when the script on the main stack goes on. -/
theorem phase_settled (phase : Phase p back notes c) (shows : p.Depicts c w)
    (returned : w.Returned back) : Settled notes c := by
  have outer : ∀ {a g chain cells}, ¬Floor c.toView a (g :: chain) cells := fun floor => by
    have out := returned.2
    rw [shows.inside_fibers floor] at out
    cases out
  cases phase with
  | opening k from' live => exact absurd live.floor outer
  | turning k from' valid live => exact absurd live.floor outer
  | tasking k from' valid accounts doing live => exact absurd live.floor outer
  | accounting k from' valid accounts leaving live => exact absurd live.floor outer
  | idling k from' valid idling live => exact absurd live.floor outer
  | rested k from' valid begun live => exact absurd live.floor outer
  | closing k from' valid settled => exact settled
  | joining settled frames => exact settled
  | finishing settled frames => exact settled
  | returned settled => exact settled

/-- A round of a stop that has not returned leads from phase to phase. -/
theorem phase_goes (one : p.config.threads = 1) (mappable : Mappable p.config.stackSize usable)
    (room : p.config.pool * 8 < rowLimit) (room' : p.settings.maxEvents * 8 < rowLimit)
    (phase : Phase p back notes c) (shows : p.Depicts c w) (busy : ¬w.Returned back)
    (lawful : w.Lawful) (round : w.round = some w') (timely : w'.Timely) :
    ∃ c', p.Depicts c' w' ∧ Phase p back (w.notes w'.thread.signal ++ notes) c' := by
  cases phase with
  | opening k from' live frames signal wait spare noted =>
    subst from' noted
    obtain ⟨d, signal⟩ := signal
    exact opening_goes mappable room shows live frames signal wait spare round
  | turning k from' valid live frames signal wait spare noted =>
    subst from' noted
    obtain ⟨d, signal⟩ := signal
    exact turning_goes shows valid live frames signal wait round mappable spare
  | tasking k from' valid accounts doing live wait spare waits noted =>
    subst from' noted
    exact tasking_goes one shows valid accounts wait round lawful timely rfl rfl doing live spare
      waits
  | accounting k from' valid accounts leaving live frames signal wait spare waits noted =>
    subst from' noted
    exact left_goes shows valid accounts frames signal wait round leaving live spare waits
  | idling k from' valid idling live spare noted =>
    subst from' noted
    exact idling_goes room' shows valid round timely rfl rfl rfl idling live spare
  | rested k from' valid begun live frames signal wait spare noted =>
    subst from' noted
    exact rested_goes shows valid round live frames signal wait spare
  | closing k from' valid settled closing floor wait handles held =>
    subst from'
    exact closing_goes shows round settled wait valid rfl rfl closing floor handles held
  | joining settled frames signal wait order handles =>
    exact joining_goes shows round settled wait frames signal order handles
  | finishing settled frames signal wait order handles =>
    obtain ⟨d, signal⟩ := signal
    exact finishing_goes shows round settled wait frames signal order handles
  | returned settled frames order =>
    exact absurd ⟨shows.thread.frames.trans frames, shows.outside_fibers order⟩ busy

/-- A manager that has just been made. It has nothing to do, its root fiber has not begun, and
nobody but its script knows it. -/
structure Made (p : Station) (c : Scene) : Prop where
  one : p.config.threads = 1
  root : Ground c.toView [] [p.freshRoot]
  queue : c.shared.queue = []
  active : c.shared.active = 0
  table : c.table.Holds .empty
  timers : c.timers.slots = .empty
  names : p.Knows c.timers c.names
  handles : 1 ≤ c.handles
  held : 1 ≤ c.held
  script : Scripting c.frames c.signal c.wait

/-- The books of a manager that has just been made. -/
def blankBooks (p : Station) : Books where
  known := [p.freshRoot]
  chain := []
  registry := .empty
  tasks := []
  hand := []
  post _ := .fresh 0 ""
  spare _ := 0
  risen := []
  due := 1
  lent := 1
  notes := []

theorem Made.sound (p : Station) : p.blankBooks.Sound p where
  takes := List.forall_mem_nil _
  drowsy := List.forall_mem_nil _
  balance _ := rfl
  sleeps _ := rfl

theorem Made.store (h : p.Made c) : Store p p.blankBooks c where
  sound := Made.sound p
  tasks := by
    rw [Scene.tasks, Timers.owed, Timers.owedBy, h.timers, h.queue]
    exact .refl _
  table := h.table
  handlers := List.forall_mem_nil _
  timers := by
    constructor
    · rw [h.timers]
      exact List.nodup_nil
    · intro id s found
      rw [h.timers] at found
      cases found
  recurring := by
    intro id s found
    rw [h.timers] at found
    cases found
  names := h.names
  pinned := by
    rw [h.queue]
    exact List.forall_mem_nil _
  handles := h.handles
  held := h.held

theorem Made.prepares (h : p.Made c) : p.Prepares p.blankBooks c where
  stock := ⟨h.store, h.root, by
    intro x mem _ block label same
    obtain rfl := List.mem_singleton.mp mem
    cases same⟩
  known := rfl
  chain := rfl
  hand := rfl
  risen := rfl
  due := rfl
  lent := rfl
  spare _ := rfl
  active := h.active
  script := h.script

/-- Before the stop the script stays at work. -/
theorem script_persists (one : p.config.threads = 1) (shows : p.Depicts c w)
    (h : p.Prepared opening c) (past : History p.epoll World.Works w opening w' notes) :
    ∃ c', p.Depicts c' w' ∧ p.Prepared notes c' := by
  induction past with
  | start => exact ⟨c, shows, h⟩
  | round past fit next timely ih =>
    obtain ⟨c', shows', b', h', rfl⟩ := ih
    exact script_goes shows' h' next one fit timely
  | outside past ample later ih =>
    obtain ⟨c', shows', h'⟩ := ih
    exact ⟨c', shows'.outside ample _, h'⟩

/-- The stop goes from phase to phase. -/
theorem phase_persists (one : p.config.threads = 1)
    (mappable : Mappable p.config.stackSize usable) (room : p.config.pool * 8 < rowLimit)
    (room' : p.settings.maxEvents * 8 < rowLimit) (shows : p.Depicts c w)
    (phase : Phase p back opening c)
    (past : History p.epoll (fun v => ¬v.Returned back ∧ v.Lawful) w opening w' notes) :
    ∃ c', p.Depicts c' w' ∧ Phase p back notes c' := by
  induction past with
  | start => exact ⟨c, shows, phase⟩
  | round past fit next timely ih =>
    obtain ⟨c', shows', phase'⟩ := ih
    exact phase_goes one mappable room room' phase' shows' fit.1 fit.2 next timely
  | outside past ample later ih =>
    obtain ⟨c', shows', phase'⟩ := ih
    exact ⟨c', shows'.outside ample _, phase'⟩

end Station

open Station in
/-- The first stop of a manager loses nothing. Whatever its script has prepared and its tasks do,
and however the system behaves: when the stop has returned, nothing is queued or taken, no timer is
armed and no event is waited for; every body that was ever owed (queued, or the callback of a
one-shot timer, of a round of a recurring one, or of an event) was dropped or has begun, once for
each time; and every sleep that began is over. -/
theorem first_stop_loses_nothing {p : Station} {c : Scene} {w₀ w₁ w₂ w : World} {usable : Nat}
    {verb label name : String} {rest : List Step} {base : List Frame} {opening notes : List Note}
    (shows : p.Depicts c w₀) (made : p.Made c)
    (mappable : Mappable p.config.stackSize usable) (room : p.config.pool * 8 < rowLimit)
    (room' : p.settings.maxEvents * 8 < rowLimit)
    (before : History p.epoll World.Works w₀ [] w₁ opening)
    (call : w₁.thread.frames =
      .steps (.perform verb (.scheduler (.stop name)) :: rest) label :: base)
    (named : w₁.names.schedulers.get? name = some p.scheduler) (called : w₁.round = some w₂)
    (during : History p.epoll
      (fun v => ¬v.Returned (stopFrames verb label rest base) ∧ v.Lawful) w₂ opening w notes)
    (returned : w.Returned (stopFrames verb label rest base)) :
    (∃ x, w.schedulers.get? p.scheduler = some x ∧ x.shared.queue = [] ∧ x.shared.active = 0) ∧
      (∃ x, w.reactors.get? p.reactor = some x ∧ x.table.pending = 0) ∧
      (∃ x, w.timerSets.get? p.timers = some x ∧ x.timers.hasTimer = false) ∧
      (∀ body, notes.count (.owed body) =
        notes.count (.dropped body) + notes.count (.begun body)) ∧
      ∀ id, notes.count (.asleep id) = notes.count (.awake id) := by
  obtain ⟨c₁, shows₁, b, prepares, rfl⟩ :=
    script_persists made.one shows ⟨_, made.prepares, rfl⟩ before
  have frames : c₁.frames = .steps (.perform verb (.scheduler (.stop name)) :: rest) label ::
      base := shows₁.thread.frames.symm.trans call
  obtain ⟨⟨d, signal⟩, wait⟩ := prepares.script.of_steps frames
  obtain ⟨c₂, shows₂, phase⟩ := stop_goes made.one shows₁ prepares frames signal wait
    (shows₁.names ▸ named) called
  obtain ⟨c', shows', phase'⟩ := phase_persists made.one mappable room room' shows₂ phase during
  have settled := phase_settled phase' shows' returned
  obtain ⟨x, scheduler, isScheduler⟩ := shows'.scheduler
  obtain ⟨y, reactor, isReactor⟩ := shows'.reactor
  obtain ⟨z, timers, same⟩ := shows'.timers
  refine ⟨⟨x, scheduler, ?_, ?_⟩, ⟨y, reactor, ?_⟩, ⟨z, timers, ?_⟩, settled.bodies, settled.sleeps⟩
  · rw [isScheduler.shared, settled.queue]
  · rw [isScheduler.shared, settled.active]
  · rw [isReactor.table, settled.pending]
  · rw [same, settled.timers]

/-- Follows some rounds as long as each begins as it may; answers the world and what has happened.
-/
def World.follow (may : World → Bool) : Nat → World → List Note → Option (World × List Note)
  | 0, w, notes => some (w, notes)
  | n + 1, w, notes =>
    if may w then
      match w.round with
      | some v =>
        match v.thread.signal with
        | .raised .instantOverflow => none
        | s => v.follow may n (w.notes s ++ notes)
      | none => none
    else none

theorem History.follow {epoll : Nat} {may : World → Bool} {fit : World → Prop}
    (fits : ∀ w, may w = true → fit w) {start : World} {opening : List Note} (n : Nat)
    {w w' : World} {notes notes' : List Note} (past : History epoll fit start opening w notes)
    (follows : w.follow may n notes = some (w', notes')) :
    History epoll fit start opening w' notes' := by
  induction n generalizing w notes with
  | zero =>
    cases follows
    exact past
  | succ n ih =>
    rw [World.follow] at follows
    split at follows
    · next good =>
      split at follows
      · next v next =>
        split at follows
        · cases follows
        · next timely => exact ih (past.round (fits w good) next timely) follows
      · cases follows
    · cases follows

/-- The next step queues a callback or sleeps, if there is one. -/
def World.isMild (w : World) : Bool :=
  match w.thread.frames with
  | .steps (.perform _ (.scheduler (.schedule _ (.callback ..))) :: _) _ :: _ => true
  | .steps (.perform _ (.fiber (.sleep _)) :: _) _ :: _ => true
  | .steps (_ :: _) _ :: _ => false
  | _ => true

theorem World.isMild.lawful {w : World} (h : w.isMild = true) : w.Lawful := by
  intro step rest label base frames
  rw [World.isMild, frames] at h
  split at h
  · next same =>
    cases same
    exact ⟨_, _, rfl, .schedule _ (.callback _ _)⟩
  · next same =>
    cases same
    exact ⟨_, _, rfl, .sleeps _⟩
  · cases h
  · next other => exact absurd rfl (other step rest label base)

/-- The thread is about to answer the time on its own stack. -/
def World.isBack (w : World) : Bool :=
  !w.inFiber &&
    match w.thread.frames with
    | [.answerClock, .report "stop" "main"] => true
    | _ => false

theorem World.isBack_iff {w : World} :
    w.isBack = true ↔ w.Returned (stopFrames "stop" "main" [] []) := by
  rw [World.isBack, Bool.and_eq_true, Bool.not_eq_true', World.Returned, and_comm]
  refine and_congr_left fun _ => ⟨fun h => ?_, fun h => by rw [h]; rfl⟩
  split at h
  · next same => exact same
  · cases h

/-- A script that queues a callback, which sleeps, and stops its manager. -/
def sleepingScript : Program :=
  ⟨#[[.perform "schedule" (.scheduler (.schedule "io" (.callback (.block 1) (some "task")))),
      .perform "stop" (.scheduler (.stop "io"))],
    [.perform "sleep" (.fiber (.sleep 1))]]⟩

/-- The script with a manager that has just been made. -/
def managedWorld : World :=
  { World.start sleepingScript .frozen .empty .fresh true none "main" with
    fibers := (FiberTable.empty.create (.root 3) 131072 false).1
    saved := Table.empty.put ⟨1⟩ [.fiberStart ⟨1⟩]
    threads := Table.empty.put mainThread
      (.fresh [.steps (sleepingScript.block 0) "main"] (some 3))
    schedulers := Table.empty.put 3
      { config := .standard
        hooks := .reactor 2
        shared := ⟨[], 0, 0, true, false, false⟩
        root := some ⟨1⟩
        owner := some mainThread
        workers := []
        threadIds := 1
        handles := 2 }
    reactors := Table.empty.put 2 ⟨.standard, 1, ⟨32, .empty, 0⟩, 1, 2⟩
    timerSets := Table.empty.put 1 ⟨.empty, .epoll 1⟩
    kernel := (Kernel.State.fresh.epollNew 256).1
    names :=
      { Names.empty with
        schedulers := Table.empty.put "io" 3
        reactors := Table.empty.put "io" (3, 2) }
    lastId := 3 }

def managedStation : Station where
  program := sleepingScript
  scheduler := 3
  reactor := 2
  timers := 1
  epoll := 1
  config := .standard
  settings := .standard
  root := ⟨1⟩

def managedScene : Scene where
  fibers := managedWorld.fibers
  saved := managedWorld.saved
  frames := [.steps (sleepingScript.block 0) "main"]
  signal := .done .null
  current := none
  shared := ⟨[], 0, 0, true, false, false⟩
  handles := 2
  reports := []
  wait := none
  table := ⟨32, .empty, 0⟩
  timers := .empty
  held := 2
  names := managedWorld.names

theorem managedWorld_depicted : managedStation.Depicts managedScene managedWorld where
  program := rfl
  names := rfl
  aborted := rfl
  running := rfl
  threads := ⟨_, rfl, rfl, rfl, rfl, rfl, rfl, rfl⟩
  scheduler := ⟨_, rfl, rfl, rfl, rfl, rfl, rfl, rfl, rfl⟩
  reactor := ⟨_, rfl, rfl, rfl, rfl, rfl, rfl⟩
  timers := ⟨_, rfl, rfl⟩
  fibers := rfl
  saved := rfl
  reports := rfl
  ample := ⟨rfl, rfl, _, rfl, by decide⟩

theorem managedScene_made : managedStation.Made managedScene where
  one := rfl
  root := by
    have empty : (FiberTable.empty : FiberTable Body).Settled := ⟨nofun, nofun⟩
    refine ⟨⟨empty.create (.root 3) 131072 false, rfl⟩, ?_, List.nodup_singleton _⟩
    refine List.forall_mem_singleton.mpr ⟨⟨_, rfl, rfl, rfl, Nat.le_refl 1⟩, ?_⟩
    rintro _ ⟨⟩
    rfl
  queue := rfl
  active := rfl
  table := Reactor.FdTable.holds_fresh (n := 32) rfl
  timers := rfl
  names := by
    refine ⟨fun name s found => ?_, fun name x found => ?_, fun _ => rfl, nofun⟩
    · change (Table.empty.put "io" 3).get? name = some s at found
      rw [Table.get?_put] at found
      split at found
      · exact (Option.some.inj found).symm
      · cases found
    · change (Table.empty.put "io" (3, 2)).get? name = some x at found
      rw [Table.get?_put] at found
      split at found
      · exact (Option.some.inj found).symm
      · cases found
  handles := by decide
  held := by decide
  script := .works [(sleepingScript.block 0, "main")] .null

/-- The script up to its stop. -/
def preparedRun : Option (World × List Note) :=
  managedWorld.follow (fun w => !w.thread.frames.isEmpty && w.isMild) 2 []

/-- The script after the call of its stop. -/
def calledRun : Option (World × List Note) :=
  preparedRun.bind fun x => x.1.round.map fun w => (w, x.2)

/-- The script when its stop has returned. -/
def stoppedRun : Option (World × List Note) :=
  calledRun.bind fun x => x.1.follow (fun w => !w.isBack && w.isMild) 38 x.2

/-- Whether the script comes to its stop. -/
def World.comesToStop (w : World) : Bool :=
  match w.thread.frames with
  | [.steps [.perform "stop" (.scheduler (.stop "io"))] "main"] => true
  | _ => false

/-- What happens in the run, the last first. -/
def sleepingNotes : List Note :=
  [.awake ⟨4⟩, .begun (.timer (.wake 3 ⟨4⟩)), .owed (.timer (.wake 3 ⟨4⟩)), .asleep ⟨4⟩,
    .begun (.script 1 "task"), .owed (.script 1 "task")]

/-- A callback that sleeps is not lost: the stop returns once it has slept. -/
theorem sleeping_task_is_not_lost : ∃ w : World,
    w.Returned (stopFrames "stop" "main" [] []) ∧
      (∃ x, w.schedulers.get? 3 = some x ∧ x.shared.queue = [] ∧ x.shared.active = 0) ∧
      (∃ x, w.reactors.get? 2 = some x ∧ x.table.pending = 0) ∧
      (∃ x, w.timerSets.get? 1 = some x ∧ x.timers.hasTimer = false) ∧
      (∀ body, sleepingNotes.count (.owed body) =
        sleepingNotes.count (.dropped body) + sleepingNotes.count (.begun body)) ∧
      ∀ id, sleepingNotes.count (.asleep id) = sleepingNotes.count (.awake id) := by
  have ended : stoppedRun.any (fun x => x.1.isBack && x.2 = sleepingNotes) = true := by
    decide +kernel
  obtain ⟨w, notes, stopped⟩ : ∃ w notes, stoppedRun = some (w, notes) := by
    cases h : stoppedRun with
    | none =>
      rw [h] at ended
      cases ended
    | some x => exact ⟨x.1, x.2, rfl⟩
  rw [stopped] at ended
  obtain ⟨back, same⟩ := Bool.and_eq_true_iff.mp ended
  obtain rfl : notes = sleepingNotes := of_decide_eq_true same
  obtain ⟨⟨w₂, opening⟩, called, during⟩ := Option.bind_eq_some_iff.mp stopped
  obtain ⟨⟨w₁, opening⟩, prepared, call⟩ := Option.bind_eq_some_iff.mp called
  obtain ⟨v, next, together⟩ := Option.map_eq_some_iff.mp call
  obtain ⟨rfl, rfl⟩ := Prod.mk.inj together
  have ready : preparedRun.all (fun x =>
      x.1.comesToStop && x.1.names.schedulers.get? "io" = some 3) = true := by decide +kernel
  rw [prepared] at ready
  obtain ⟨comes, named⟩ := Bool.and_eq_true_iff.mp ready
  have before : History 1 World.Works managedWorld [] w₁ opening := by
    refine .follow (fun w works => ?_) 2 .start prepared
    obtain ⟨busy, mild⟩ := Bool.and_eq_true_iff.mp works
    refine ⟨fun none => ?_, World.isMild.lawful mild⟩
    rw [none] at busy
    cases busy
  have during : History 1
      (fun v => ¬v.Returned (stopFrames "stop" "main" [] []) ∧ v.Lawful) v opening w
      sleepingNotes := by
    refine .follow (fun w goes => ?_) 38 .start during
    obtain ⟨out, mild⟩ := Bool.and_eq_true_iff.mp goes
    refine ⟨fun returned => ?_, World.isMild.lawful mild⟩
    rw [World.isBack_iff.mpr returned] at out
    cases out
  have frames : w₁.thread.frames =
      [.steps [.perform "stop" (.scheduler (.stop "io"))] "main"] := by
    rw [World.comesToStop] at comes
    split at comes
    · next same => exact same
    · cases comes
  have mappable : Mappable managedStation.config.stackSize 131072 := ⟨by decide, by decide⟩
  have returned := World.isBack_iff.mp back
  exact ⟨w, returned, first_stop_loses_nothing managedWorld_depicted managedScene_made mappable
    (by decide) (by decide) before frames (of_decide_eq_true named) next during returned⟩

/-- A script that makes a manager with some settings, queues a callback, which sleeps, and stops the
manager. -/
def strainedScript (config : List SchedulerConfig.Choice) (settings : List ReactorConfig.Choice) :
    Program :=
  ⟨#[[.perform "io_new" (.reactor (.new "io" ⟨false, .empty, config⟩
        (some ⟨false, .empty, settings⟩))),
      .perform "schedule" (.scheduler (.schedule "io" (.callback (.block 1) (some "task")))),
      .perform "stop" (.scheduler (.stop "io"))],
    [.perform "sleep" (.fiber (.sleep 1))]]⟩

/-- The script from its start to its end. -/
def strainedEnd (config : List SchedulerConfig.Choice) (settings : List ReactorConfig.Choice) :
    World :=
  (World.start (strainedScript config settings) .frozen .empty .fresh false none "main").runUpTo 60

/-- A run loop that cannot make room for the callback fibers that it may keep ends before its first
turn, be there stacks and room for reports: the stop returns, and the callback is still queued. -/
theorem unreservable_pool_leaves_work :
    (strainedEnd [.pool (Nat.pow 2 60)] []).isOver = true ∧
      (strainedEnd [.pool (Nat.pow 2 60)] []).aborted = false ∧
      (strainedEnd [.pool (Nat.pow 2 60)] []).reports.map Prod.fst =
        ["io_new", "schedule", "stop"] ∧
      ((strainedEnd [.pool (Nat.pow 2 60)] []).schedulers.get? 3).map (fun x => x.shared.queue) =
        some [⟨.callback (.script 1 "task"), none⟩] := by
  refine ⟨?_, ?_, ?_, ?_⟩ <;> decide +kernel

end Fibers.Script
