import Fibers.Proofs.Sleep.Returning

/-!
Sleeps on a single worker. A script has queued tasks that only sleep, and stops its manager. The
root fiber begins the run loop with these tasks, and when the stop has returned, each sleep was
exact, and they have come back in order.
-/

namespace Fibers.Script

/-- The body that a task is to run. -/
def World.taskBody (w : World) : Task Body → Option Body
  | .fiber id => w.bodyOf id
  | .callback body => some body

/-- The body of a task makes some sleeps, each with its verb, and nothing else. -/
def World.OnlySleeps (w : World) (t : Task Body) (label : String)
    (naps : List (String × Duration)) : Prop :=
  ∃ block, w.taskBody t = some (.script block label) ∧ w.program.block block = napSteps naps

namespace Station

/-- The manager has nothing to do but some tasks that only sleep, each with its label. -/
structure OnlySleepers (p : Station) (w : World)
    (tasks : List (String × List (String × Duration))) : Prop where
  queue : ∀ x, w.schedulers.get? p.scheduler = some x →
    List.Forall₂ (fun e t => w.OnlySleeps e.task t.1 t.2) x.shared.queue tasks
  timers : ∀ x, w.timerSets.get? p.timers = some x → x.timers = .empty
  events : ∀ x, w.reactors.get? p.reactor = some x → x.table.pending = 0

variable {p : Station} {b : Books} {c u : Scene} {w : World} {k : Bench} {usable : Nat}
  {now : Instant} {back : List Frame} {e : QueueEntry Body} {label : String}
  {naps : List (String × Duration)} {tasks : List (String × List (String × Duration))}
  {chores : List Chore}

/-- What is known of a queued task that only sleeps. -/
theorem chore_of (shows : p.Depicts c w) (only : w.OnlySleeps e.task label naps)
    (pin : e.worker = none ∨ e.worker = some 0)
    (holds : ∀ id ∈ taskFibers e.task, ((b.post id).cell p id 1).Holds c.toView) :
    ∃ y : Chore, y.entry = e ∧ y.Fits p ∧
      (taskFibers e.task).map (fun id => (b.post id).cell p id 1) = y.cells ∧
      y.label = label ∧ y.naps = naps := by
  obtain ⟨block, body, steps⟩ := only
  rw [shows.program] at steps
  obtain ⟨task, worker⟩ := e
  cases task with
  | callback body' =>
    obtain rfl := Option.some.inj body
    exact ⟨⟨none, worker, block, label, naps⟩, rfl, ⟨pin, steps⟩, rfl, rfl, rfl⟩
  | fiber id =>
    refine ⟨⟨some id, worker, block, label, naps⟩, rfl, ⟨pin, steps⟩, ?_, rfl, rfl⟩
    obtain ⟨⟨r, found, _, entry, _⟩, _⟩ := holds id (List.mem_singleton.mpr rfl)
    rw [Posture.cell_id] at found
    have body : r.entry = some (.script block label) := by
      have body : (w.fibers.get? id).bind (·.entry) = _ := body
      rw [shows.fibers, found] at body
      exact body
    rw [entry] at body
    change [(b.post id).cell p id 1] = [⟨id, .init, some (.script block label), 1, _⟩]
    cases posture : b.post id with
    | fresh block' label' =>
      rw [posture] at body
      obtain ⟨rfl, rfl⟩ := Body.script.inj (Option.some.inj body)
      rfl
    | ready => rw [posture] at body; cases body
    | asleep => rw [posture] at body; cases body

/-- What is known of a queue of such tasks. -/
theorem chores_of (shows : p.Depicts c w) {queue : TaskQueue Body}
    (only : List.Forall₂ (fun e t => w.OnlySleeps e.task t.1 t.2) queue tasks)
    (pins : ∀ e ∈ queue, e.worker = none ∨ e.worker = some 0)
    (holds : ∀ e ∈ queue, ∀ id ∈ taskFibers e.task, ((b.post id).cell p id 1).Holds c.toView) :
    ∃ chores : List Chore, queue = chores.map Chore.entry ∧ (∀ y ∈ chores, y.Fits p) ∧
      (queue.flatMap fun e => (taskFibers e.task).map fun id => (b.post id).cell p id 1) =
        chores.flatMap Chore.cells ∧
      chores.flatMap (fun y => Dorm.Job.calls y.label y.naps) =
        tasks.flatMap fun t => Dorm.Job.calls t.1 t.2 := by
  induction only with
  | nil => exact ⟨[], rfl, List.forall_mem_nil _, rfl, rfl⟩
  | @cons e t queue tasks first rest ih =>
    obtain ⟨pin, pins⟩ := List.forall_mem_cons.mp pins
    obtain ⟨held, holds⟩ := List.forall_mem_cons.mp holds
    obtain ⟨chores, rfl, all, others, calls⟩ := ih pins holds
    obtain ⟨y, rfl, fits, cells, label, naps⟩ := chore_of shows first pin held
    refine ⟨y :: chores, rfl, List.forall_mem_cons.mpr ⟨fits, all⟩, ?_, ?_⟩
    · rw [List.flatMap_cons, List.flatMap_cons, cells, others]
    · rw [List.flatMap_cons, List.flatMap_cons, calls, label, naps]

/-- A manager of such tasks waits for no event. -/
theorem unwatched (prepares : p.Prepares b c) (events : c.table.pending = 0) :
    b.registry = .empty := by
  have none : b.registry.entries = [] :=
    List.length_eq_zero_iff.mp (prepares.stock.table.pending.symm.trans events)
  rcases registry : b.registry with ⟨entries⟩
  rw [registry] at none
  exact congrArg Table.mk none

/-- The fibers that wait are those of the queue. -/
theorem crew_queued (prepares : p.Prepares b c) (timers : c.timers = .empty)
    (events : b.registry = .empty) :
    (b.crew p).Perm
      (c.shared.queue.flatMap fun e =>
        (taskFibers e.task).map fun id => (b.post id).cell p id 1) := by
  have tasks : b.tasks.Perm (c.shared.queue.map (·.task)) := by
    have tasks := prepares.stock.tasks
    rw [prepares.hand, List.append_nil, Scene.tasks, timers, events] at tasks
    exact tasks.trans (.of_eq (List.append_nil _))
  have fibers := (tasks.flatMap_right taskFibers).map fun id =>
    (b.post id).cell p id (b.spare id + 1)
  refine fibers.trans (.of_eq ?_)
  rw [List.flatMap_map, List.map_flatMap]
  simp only [prepares.spare, Nat.zero_add]

/-- A manager has nothing to do but chores that only sleep. -/
structure Charged (p : Station) (b : Books) (c : Scene) (chores : List Chore) : Prop where
  queue : c.shared.queue = chores.map Chore.entry
  fits : ∀ x ∈ chores, x.Fits p
  crew : (b.crew p).Perm (chores.flatMap Chore.cells)
  timers : c.timers = .empty
  table : c.table.Holds .empty

theorem OnlySleepers.charged (only : p.OnlySleepers w tasks) (shows : p.Depicts c w)
    (prepares : p.Prepares b c) :
    ∃ chores, p.Charged b c chores ∧
      chores.flatMap (fun y => Dorm.Job.calls y.label y.naps) =
        tasks.flatMap fun t => Dorm.Job.calls t.1 t.2 := by
  have timers : c.timers = .empty := by
    obtain ⟨x, found, same⟩ := shows.timers
    exact same.symm.trans (only.timers x found)
  have registry : b.registry = .empty := by
    obtain ⟨x, found, is⟩ := shows.reactor
    exact unwatched prepares (is.table ▸ only.events x found)
  have queued : List.Forall₂ (fun e t => w.OnlySleeps e.task t.1 t.2) c.shared.queue tasks := by
    obtain ⟨x, found, is⟩ := shows.scheduler
    exact is.shared ▸ only.queue x found
  have crew := crew_queued prepares timers registry
  obtain ⟨chores, queue, fits, cells, calls⟩ := chores_of shows queued prepares.stock.pinned
    fun e mem id own => prepares.stock.ground.holds _ (List.mem_append_right _
      (crew.mem_iff.mpr (List.mem_flatMap.mpr ⟨e, mem, List.mem_map_of_mem own⟩)))
  exact ⟨chores, ⟨queue, fits, cells ▸ crew, timers, registry ▸ prepares.stock.table⟩, calls⟩

/-- What the run loop is to do when it begins. -/
theorem Charged.hosts (charged : p.Charged b c chores) (opened : p.Opened b c k u)
    (prepares : p.Prepares b c) (now : Instant) :
    Hosts p ⟨now, chores.map .fresh, [], []⟩ 3 1 0 { u with handles := u.handles + 1 } := by
  obtain ⟨dues, lends⟩ := Dorm.start_handles now chores
  have enough := prepares.stock.handles
  have enough' := prepares.stock.held
  rw [prepares.due] at enough
  rw [prepares.lent] at enough'
  refine ⟨?_, ?_, ?_, ?_, opened.wait, ?_, ?_, fun j mem => ?_, ?_, ?_⟩
  · rw [opened.shared, List.map_map]
    exact charged.queue
  · rw [opened.shared]
    exact prepares.active
  · rw [opened.shared]
    rfl
  · rw [opened.shared]
    rfl
  · rw [opened.table]
    exact charged.table
  · rw [opened.timers, charged.timers]
    exact .empty _
  · obtain ⟨x, among, rfl⟩ := List.mem_map.mp mem
    exact charged.fits x among
  · change 3 + Dorm.dues _ ≤ u.handles + 1
    rw [dues, opened.handles]
    omega
  · change 1 + Dorm.lends _ ≤ u.held
    rw [lends, opened.held]
    omega

/-- The run loop begins, and the stop returns when every sleep is over. -/
theorem Charged.rests (charged : p.Charged b c chores) (opened : p.Opened b c k u)
    (prepares : p.Prepares b c) (mappable : Mappable p.config.stackSize usable)
    (room : p.config.pool * 8 < rowLimit) (room' : p.settings.maxEvents * 8 < rowLimit)
    (waits : 0 < p.settings.maxWait) :
    p.Leads k.back u now (Rested k.back ⟨now, chores.map .fresh, [], []⟩) := by
  let d : Dorm := ⟨now, chores.map .fresh, [], []⟩
  obtain ⟨k', v, same, does, steady, frames, floor⟩ := opening_does mappable room opened.floor
  generalize k'.idle = idle at same
  subst same
  refine .step (busy_inside opened.floor) opened.wait opened.frames
    (fun t => by rw [opened.frames]; rfl) (by rw [opened.signal]; rfl) does (startFiber_gently _) ?_
  have cells : (b.crew p).Perm (d.cells p) := by
    refine charged.crew.trans (.of_eq ?_)
    rw [Dorm.cells, List.map_nil, List.append_nil, List.flatMap_map]
    rfl
  have hosts := charged.hosts opened prepares now
  have turn : p.AtTurn { k with idle := idle, begun := false, pooled := [] } d
      { v with signal := .done .null } :=
    ⟨List.forall_mem_nil _, hosts.steady { steady with },
      (floor.perm (.cons _ (cells.append_left _))).congr rfl rfl rfl, frames, _, rfl⟩
  exact rests_leads turn (Dorm.sound_start now chores) mappable room' waits

/-- The stop returns at once if there is nothing to do. -/
theorem Charged.idles (charged : p.Charged b c chores) (prepares : p.Prepares b c)
    (wait : c.wait = none) {held : Scene}
    (same : held = { c with
      frames := .release [.scheduler p.scheduler] :: back
      handles := c.handles + 1 })
    (finished : finished held.stopped = true) :
    p.Leads back { held.stopped with signal := .done .null } now
      (Rested back ⟨now, chores.map .fresh, [], []⟩) := by
  have enough := prepares.stock.handles
  rw [prepares.due] at enough
  have several : 2 ≤ held.stopped.handles := by
    subst same
    change 2 ≤ c.handles + 1
    omega
  have none : chores = [] := by
    subst same
    simp only [Station.finished, Bool.and_eq_true, Shared.isDone, List.isEmpty_iff] at finished
    exact List.map_eq_nil_iff.mp (charged.queue.symm.trans finished.2.1.2)
  subst none
  have returns : p.Leads back { held.stopped with signal := .done .null } now (Back back) := by
    subst same
    exact finishes_leads wait rfl rfl several prepares.order
  exact returns.mono fun _ _ _ returned => returned.rested (Dorm.sound_start now []) rfl rfl

end Station

open Station in
/-- Sleeps on a single worker are exact and ordered. A script prepares a manager of its own thread,
whose clock goes on only in the waits of its reactor and whose poller can be waited for; all that it
has to do are tasks that only sleep, any number of them, each any number of times and for any time,
and no deadline overflows. Then the first stop of the manager returns; each of the calls has come
back once, at the moment for which it was made or less than a millisecond later; and they have come
back in the order of these moments, those of one moment in the order of the calls. -/
theorem sleeps_are_exact_and_ordered {p : Station} {c : Scene} {w₀ w₁ w₂ : World} {usable : Nat}
    {verb label name : String} {rest : List Step} {base : List Frame} {opening : List Note}
    {tasks : List (String × List (String × Duration))}
    (shows : p.Depicts c w₀) (made : p.Made c)
    (mappable : Mappable p.config.stackSize usable) (room : p.config.pool * 8 < rowLimit)
    (room' : p.settings.maxEvents * 8 < rowLimit) (waits : 0 < p.settings.maxWait)
    (before : History p.epoll World.Works w₀ [] w₁ opening)
    (frozen : w₁.timing = .frozen)
    (accepts : ∀ e, w₁.kernel.epolls.get? p.epoll = some e →
      Kernel.State.acceptsBound e.maxEvents = true)
    (sleepers : p.OnlySleepers w₁ tasks)
    (call : w₁.thread.frames =
      .steps (.perform verb (.scheduler (.stop name)) :: rest) label :: base)
    (named : w₁.names.schedulers.get? name = some p.scheduler) (called : w₁.round = some w₂)
    (inTime : InTime (stopFrames verb label rest base) w₂) :
    ∃ log w, Diary (stopFrames verb label rest base) w₂ log w ∧
      w.Returned (stopFrames verb label rest base) ∧
      ((sleeps log).map Sleep.task).Perm
        (tasks.flatMap fun t => t.2.map fun nap => (t.1, nap.2)) ∧
      (∀ s ∈ sleeps log, s.IsExact) ∧
      endings log = ((sleeps log).mergeSort fun a b => decide (a.due ≤ b.due)).map
        fun s => (s.fiber, s.woken) := by
  let back := stopFrames verb label rest base
  obtain ⟨c₁, shows₁, b, prepares, -⟩ :=
    script_persists made.one shows ⟨_, made.prepares, rfl⟩ before
  have seen₁ : p.Sees c₁ w₁.clock w₁ := ⟨shows₁, rfl, frozen, accepts⟩
  have frames : c₁.frames = .steps (.perform verb (.scheduler (.stop name)) :: rest) label ::
      base := shows₁.thread.frames.symm.trans call
  obtain ⟨⟨d, signal⟩, wait⟩ := prepares.script.of_steps frames
  let held : Scene :=
    { c₁ with
      frames := .release [.scheduler p.scheduler] :: back
      handles := c₁.handles + 1 }
  obtain ⟨c₂, shows₂, outcome⟩ := stop_calls made.one shows₁ prepares frames signal wait
    (shows₁.names ▸ named) called (rfl : held = _)
  have seen₂ : p.Sees c₂ w₁.clock w₂ := seen₁.goes wait frames (by rw [signal]; rfl)
    (stopCall_gently verb label name rest) called shows₂
  obtain ⟨chores, charged, calls⟩ := sleepers.charged shows₁ prepares
  have leads : p.Leads back c₂ w₁.clock (Rested back ⟨w₁.clock, chores.map .fresh, [], []⟩) := by
    rcases outcome with ⟨finished, rfl⟩ | ⟨-, k, from', -, opened⟩
    · exact charged.idles prepares wait rfl finished
    · have rests : p.Leads k.back c₂ w₁.clock _ :=
        charged.rests opened prepares mappable room room' waits
      rw [from'] at rests
      exact rests
  obtain ⟨log, c', now, w, diary, seen, ⟨frames', order⟩, all, d', done, sound, nobody, rfl⟩ :=
    leads w₂ seen₂ inTime
  obtain ⟨exact', order'⟩ := sound.ended nobody
  refine ⟨d'.log, w, diary, ⟨seen.depicts.thread.frames.trans frames',
    seen.depicts.outside_fibers order⟩, all.trans (.of_eq ?_), exact', order'⟩
  refine Eq.trans ?_ calls
  rw [Dorm.todo, List.flatMap_map]
  exact List.append_nil _

/-- Whether rounds come back from the stop, at most so many of them and none with an overflow. -/
def World.returnsTimely : Nat → World → Bool
  | 0, w => w.isBack
  | n + 1, w =>
    w.isBack ||
      match w.round with
      | some v =>
        match v.thread.signal with
        | .raised .instantOverflow => false
        | _ => v.returnsTimely n
      | none => false

/-- No deadline overflows in a run that was looked at. -/
theorem InTime.of_returns {n : Nat} {w : World} (timely : w.Timely)
    (returns : w.returnsTimely n = true) : InTime (stopFrames "stop" "main" [] []) w := by
  intro log v diary
  have along : v.Timely ∧ ∃ n, v.returnsTimely n = true := by
    induction diary with
    | start => exact ⟨timely, n, returns⟩
    | round past busy next ih =>
      obtain ⟨-, m, returns⟩ := ih
      have away := fun back => busy (World.isBack_iff.mp back)
      cases m with
      | zero => exact absurd returns away
      | succ m =>
        rw [World.returnsTimely, Bool.or_eq_true, next] at returns
        have returns := returns.resolve_left away
        dsimp only at returns
        split at returns
        · cases returns
        · next timely => exact ⟨timely, m, returns⟩
  exact along.1

/-- A script that queues two callbacks, one of which sleeps twice, and stops its manager. -/
def napScript : Program :=
  ⟨#[[.perform "schedule" (.scheduler (.schedule "io" (.callback (.block 1) (some "long")))),
      .perform "schedule" (.scheduler (.schedule "io" (.callback (.block 2) (some "short")))),
      .perform "stop" (.scheduler (.stop "io"))],
    [.perform "sleep" (.fiber (.sleep 2)), .perform "again" (.fiber (.sleep 0))],
    [.perform "sleep" (.fiber (.sleep 1))]]⟩

/-- The script with a manager that has just been made. -/
def napWorld : World :=
  { managedWorld with
    program := napScript
    threads := Table.empty.put mainThread (.fresh [.steps (napScript.block 0) "main"] (some 3)) }

def napStation : Station := { managedStation with program := napScript }

def napScene : Scene := { managedScene with frames := [.steps (napScript.block 0) "main"] }

theorem napWorld_depicted : napStation.Depicts napScene napWorld where
  program := rfl
  names := rfl
  aborted := rfl
  running := rfl
  threads := ⟨_, rfl, rfl, rfl, rfl, rfl, rfl, rfl⟩
  scheduler := ⟨_, rfl, rfl, rfl, rfl, rfl, rfl, rfl, rfl⟩
  reactor := ⟨_, rfl, rfl, rfl, rfl, rfl, rfl⟩
  timers := managedWorld_depicted.timers
  fibers := rfl
  saved := rfl
  reports := rfl
  ample := managedWorld_depicted.ample

theorem napScene_made : napStation.Made napScene where
  one := rfl
  root := managedScene_made.root.congr rfl rfl rfl
  queue := rfl
  active := rfl
  table := managedScene_made.table
  timers := rfl
  names :=
    have known := managedScene_made.names
    ⟨known.schedulers, known.reactors, known.timerSets, known.timers⟩
  handles := by decide
  held := by decide
  script := .works [(napScript.block 0, "main")] .null

/-- The script up to its stop. -/
def preparedNaps : Option (World × List Note) :=
  napWorld.follow (fun w => !w.thread.frames.isEmpty && w.isMild) 4 []

/-- The script after the call of its stop. -/
def calledNaps : Option World := preparedNaps.bind fun x => x.1.round

/-- The entries of a queue that holds the two callbacks. -/
def napQueue : TaskQueue Body :=
  [⟨.callback (.script 1 "long"), none⟩, ⟨.callback (.script 2 "short"), none⟩]

/-- Whether the script comes to its stop with nothing to do but the two callbacks. -/
def World.comesToNaps (w : World) : Bool :=
  w.comesToStop && w.names.schedulers.get? "io" = some 3 && w.timing = .frozen &&
    (w.kernel.epolls.get? 1).all (fun e => Kernel.State.acceptsBound e.maxEvents) &&
    (w.schedulers.get? 3).all (fun x => x.shared.queue = napQueue) &&
    (w.timerSets.get? 1).all (fun x => x.timers = .empty) &&
    (w.reactors.get? 2).all fun x => x.table.pending == 0

/-- Two callbacks sleep at the same time. The one that is due first is resumed first, though it was
called last and both are late. -/
theorem naps_return_in_order : ∃ w₂ log w, calledNaps = some w₂ ∧
    Diary (stopFrames "stop" "main" [] []) w₂ log w ∧
      w.Returned (stopFrames "stop" "main" [] []) ∧
      ((sleeps log).map Sleep.task).Perm [("long", 2), ("long", 0), ("short", 1)] ∧
      (∀ s ∈ sleeps log, s.IsExact) ∧
      endings log = ((sleeps log).mergeSort fun a b => decide (a.due ≤ b.due)).map
        fun s => (s.fiber, s.woken) := by
  have ready : preparedNaps.any (fun x => x.1.comesToNaps) = true := by decide +kernel
  have comes : calledNaps.any (fun w =>
      w.thread.signal.isDone && w.returnsTimely 70) = true := by decide +kernel
  obtain ⟨⟨w₁, opening⟩, prepared, ready⟩ := (Option.any_eq_true ..).mp ready
  obtain ⟨w₂, stopped, timely⟩ := (Option.any_eq_true ..).mp comes
  obtain ⟨done, returns⟩ := Bool.and_eq_true_iff.mp timely
  have called : w₁.round = some w₂ := by
    rw [calledNaps, prepared] at stopped
    exact stopped
  simp only [World.comesToNaps, Bool.and_eq_true, decide_eq_true_eq, Option.all_eq_true,
    beq_iff_eq] at ready
  obtain ⟨⟨⟨⟨⟨⟨comes, named⟩, frozen⟩, accepts⟩, queue⟩, timers⟩, events⟩ := ready
  have before : History 1 World.Works napWorld [] w₁ opening := by
    refine .follow (fun w works => ?_) 4 .start prepared
    obtain ⟨busy, mild⟩ := Bool.and_eq_true_iff.mp works
    refine ⟨fun none => ?_, World.isMild.lawful mild⟩
    rw [none] at busy
    cases busy
  have frames : w₁.thread.frames =
      [.steps [.perform "stop" (.scheduler (.stop "io"))] "main"] := by
    rw [World.comesToStop] at comes
    split at comes
    · next same => exact same
    · cases comes
  have program : w₁.program = napScript := by
    obtain ⟨c₁, shows, -⟩ := Station.script_persists (p := napStation) rfl napWorld_depicted
      ⟨_, napScene_made.prepares, rfl⟩ before
    exact shows.program
  have sleepers : napStation.OnlySleepers w₁
      [("long", [("sleep", 2), ("again", 0)]), ("short", [("sleep", 1)])] := by
    refine ⟨fun x found => ?_, timers, events⟩
    rw [queue x found]
    refine .cons ⟨1, rfl, ?_⟩ (.cons ⟨2, rfl, ?_⟩ .nil)
    all_goals
      rw [program]
      rfl
  have mappable : Mappable napStation.config.stackSize 131072 := ⟨by decide, by decide⟩
  have inTime : InTime (stopFrames "stop" "main" [] []) w₂ := by
    refine .of_returns (fun late => ?_) returns
    rw [late] at done
    cases done
  obtain ⟨log, w, diary, rest⟩ := sleeps_are_exact_and_ordered napWorld_depicted napScene_made
    mappable (by decide) (by decide) (by decide) before frozen accepts sleepers frames named called
    inTime
  exact ⟨w₂, log, w, stopped, diary, rest⟩

/-- An idle fiber that cannot make room for the reports of its waits ends before the first of them:
the stop returns, and the callback is still in the sleep that it began, with the timer for it. -/
theorem unreservable_reports_end_no_sleep :
    (strainedEnd [] [.maxEvents (Nat.pow 2 60)]).isOver = true ∧
      (strainedEnd [] [.maxEvents (Nat.pow 2 60)]).aborted = false ∧
      (strainedEnd [] [.maxEvents (Nat.pow 2 60)]).reports.map Prod.fst =
        ["io_new", "schedule", "stop"] ∧
      (strainedEnd [] [.maxEvents (Nat.pow 2 60)]).fibers.state ⟨4⟩ = .hold ∧
      (((strainedEnd [] [.maxEvents (Nat.pow 2 60)]).timersOf 1).slots.get? 1).map
        (fun x => x.callback) = some (.wake 3 ⟨4⟩) := by
  refine ⟨?_, ?_, ?_, ?_, ?_⟩ <;> decide +kernel

end Fibers.Script
