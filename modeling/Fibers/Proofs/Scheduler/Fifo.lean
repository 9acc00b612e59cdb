import Fibers.Proofs.Scheduler.Starting

/-!
The whole of a first stop. A scheduler whose only worker is the thread that stops it runs what is in
its queue as the reference machine does, whatever the number of callback fibers that it keeps; when
the stop returns, nothing is left to run.
-/

namespace Fibers.Script

variable {c : Site} {u v : View} {x : Cell} {cells : List Cell} {chain : List FiberId}
  {items : List Item} {outer base : List Frame} {d : Datum} {s : Signal} {usable : Nat}
  {verb name label : String} {rest : List Step}

/-- A started scheduler before its first stop: the queue holds the entries of some items, and
neither their fibers nor the root fiber have begun or run. -/
structure Standby (c : Site) (chain : List FiberId) (items : List Item) (v : View) : Prop where
  one : c.config.threads = 1
  ground : Ground v chain
    (⟨c.root, .init, some (.root c.scheduler), 1, some [.fiberStart c.root]⟩ ::
      items.flatMap Item.stock)
  queue : v.shared.queue = items.map Item.entry
  active : v.shared.active = 0
  fits : ∀ i ∈ items, i.Fits c
  held : 1 ≤ v.handles

theorem Origin.cells_idle (origin : Origin) (n : Nat) : ∀ x ∈ origin.cells n, x.state ≠ .exec := by
  cases origin with
  | callback => nofun
  | fiber => exact List.forall_mem_cons.mpr ⟨nofun, nofun⟩

mutual

theorem Code.forest_idle : ∀ (code : Code), ∀ x ∈ code.forest, x.state ≠ .exec
  | .ends _ => nofun
  | .notes _ _ next => next.forest_idle
  | .yields _ next => next.forest_idle
  | .queues _ _ _ origin code next =>
    List.forall_mem_append.mpr ⟨origin.cells_idle 1,
      List.forall_mem_append.mpr ⟨code.forest_idle, next.forest_idle⟩⟩
  | .queuesAll _ _ tasks next =>
    List.forall_mem_append.mpr ⟨Code.forests_idle tasks, next.forest_idle⟩

theorem Code.forests_idle : ∀ (tasks : List (Origin × Code)),
    ∀ x ∈ Code.forests tasks, x.state ≠ .exec
  | [] => nofun
  | (origin, code) :: tasks =>
    List.forall_mem_append.mpr ⟨origin.cells_idle 1,
      List.forall_mem_append.mpr ⟨code.forest_idle, Code.forests_idle tasks⟩⟩

end

theorem Item.stock_idle (i : Item) : ∀ x ∈ i.stock, x.state ≠ .exec := by
  cases i with
  | fresh origin named label pinned code =>
    exact List.forall_mem_append.mpr ⟨origin.cells_idle _, code.forest_idle⟩
  | suspended id named label verb code =>
    exact List.forall_mem_cons.mpr ⟨nofun, code.forest_idle⟩

theorem Item.stocks_idle (items : List Item) :
    ∀ x ∈ items.flatMap Item.stock, x.state ≠ .exec := by
  intro x mem
  obtain ⟨i, _, mem⟩ := List.mem_flatMap.mp mem
  exact i.stock_idle x mem

/-- A script comes to the stop of a scheduler. -/
theorem stopStep_runs (named : c.names.schedulers.get? name = some c.scheduler)
    (frames : v.frames = .steps (.perform verb (.scheduler (.stop name)) :: rest) label :: base)
    (signal : v.signal = .done d)
    (h : Does c
      { v with
        handles := v.handles + 1
        frames := .release [.scheduler c.scheduler] :: .answerClock :: .report verb label ::
          (stepFrames label rest ++ base) }
      (stop c.scheduler) s { u with signal := v.signal }) :
    Runs c v { u with signal := s } := by
  have goes : proceedWith (.steps (.perform verb (.scheduler (.stop name)) :: rest) label)
      v.signal = startSteps label (.perform verb (.scheduler (.stop name)) :: rest) := by
    rw [signal]
    rfl
  refine .of_act frames goes (startSteps_does ((push_does _).bind ?_))
  refine (schedulerNamed_does named).bind ((push_does _).bind ?_)
  exact (retain_scheduler_does.bind (push_does _)).bind h

theorem stopJoin_does : Does c v (stopJoin c.scheduler) (.done .null) v := by
  refine Does.record fun x is => ?_
  dsimp only
  rw [is.workers]
  have forgets : Does c v (updateScheduler c.scheduler fun r => { r with workers := [] }) () v :=
    updateScheduler_does fun _ is => { is with workers := rfl }
  have names : Does c v (schedulerName c.scheduler) c.config.name v :=
    Does.record fun x is => is.config ▸ .pure _
  exact forgets.bind (names.bind ((Does.log _ _).bind (.pure _)))

/-- What a stop has done when it is over but for its report. -/
structure Stopped (c : Site) (outer : List Frame) (items : List Item) (v u : View) : Prop where
  runs : Runs c v u
  frames : u.frames = .release [.scheduler c.scheduler] :: outer
  signal : u.signal = .done .null
  queue : u.shared.queue = []
  active : u.shared.active = 0
  spent : ∀ id ∈ items.flatMap Item.family,
    ∃ r, u.fibers.get? id = some r ∧ r.state.isTerminal = true ∧ r.entry = none
  /-- The root fiber has ended if there was anything to run; if not, no fiber was entered. -/
  ended : items ≠ [] → u.fibers.state c.root = .term
  calm : items = [] → u.fibers = v.fibers ∧ u.saved = v.saved ∧ u.current = v.current
  handles : u.handles = v.handles + 1
  reports : u.reports = v.reports ++ drain c.count (items.map Item.job)

variable {caller : FiberId} {entry : Option Body} {n : Nat}

/-- What a stop does after the root fiber has ended. -/
theorem joins_runs
    (frames : v.frames = .release [.fiber c.root] :: .stopJoin c.scheduler :: outer)
    (signal : v.signal = .left .term)
    (floor : Floor v caller chain
      (⟨caller, .exec, entry, n, none⟩ :: ⟨c.root, .term, none, 2, some [.fiberEnd]⟩ :: cells)) :
    ∃ u, Runs c v u ∧ (∀ x ∈ cells, x.Holds u) ∧ u.fibers.state c.root = .term ∧
      u.frames = outer ∧ u.signal = .done .null ∧ u.shared = v.shared ∧ u.handles = v.handles ∧
      u.reports = v.reports := by
  let freed : View :=
    { v with
      fibers := (v.released c.root).fibers
      saved := (v.released c.root).saved
      frames := .stopJoin c.scheduler :: outer }
  have floor := floor.perm (List.Perm.swap ..)
  have held : ∀ id ∈ [c.root], ∀ r, v.fibers.get? id = some r → r.entry = none := by
    intro id mem r found
    obtain rfl := List.mem_singleton.mp mem
    obtain ⟨⟨q, known, _, entry, _⟩, _⟩ := floor.holds _ List.mem_cons_self
    rw [Option.some.inj (found.symm.trans known)]
    exact entry
  have first : Runs c v freed := by
    have goes : proceedWith (.release [.fiber c.root]) v.signal =
        (do release [.fiber c.root]; return .left .term) := by
      rw [signal]
      rfl
    let popped : View := { v with frames := .stopJoin c.scheduler :: outer }
    have free := release_fibers_does (c := c) (v := popped) [c.root] held
    rw [List.foldl_cons, List.foldl_nil, View.released_eq c.root v popped rfl rfl] at free
    exact .of_act frames goes (signal ▸ free.bind (.pure _))
  let u : View := { freed with frames := outer, signal := .done .null }
  have second : Runs c freed u := by
    have goes : proceedWith (.stopJoin c.scheduler) freed.signal = stopJoin c.scheduler := by
      change proceedWith (.stopJoin c.scheduler) v.signal = _
      rw [signal]
      rfl
    exact .of_act rfl goes stopJoin_does
  have after := floor.release_several (Nat.le_refl 2)
  have root := after.holds _ List.mem_cons_self
  have root : Cell.Holds _ u := root.congr rfl rfl
  refine ⟨u, first.trans second, fun x mem => ?_, root.state, rfl, rfl, rfl, rfl, rfl⟩
  exact (after.holds x (List.mem_cons_of_mem _ (List.mem_cons_of_mem _ mem))).congr rfl rfl

/-- The frames under a stop that a script has come to. -/
def stopFrames (verb label : String) (rest : List Step) (base : List Frame) : List Frame :=
  .answerClock :: .report verb label :: (stepFrames label rest ++ base)

theorem Standby.rootState (h : Standby c chain items v) : v.fibers.state c.root = .init :=
  (h.ground.holds _ List.mem_cons_self).state

/-- A stop that finds nothing to run. -/
theorem Standby.stops_idle (h : Standby c chain [] v)
    (named : c.names.schedulers.get? name = some c.scheduler)
    (frames : v.frames = .steps (.perform verb (.scheduler (.stop name)) :: rest) label :: base)
    (signal : v.signal = .done d) :
    ∃ u, Stopped c (stopFrames verb label rest base) [] v u := by
  let held : View :=
    { v with
      handles := v.handles + 1
      frames := .release [.scheduler c.scheduler] :: stopFrames verb label rest base }
  have finished : held.stopped.shared.isDone = true := by
    have queue : held.stopped.shared.queue = [] := h.queue
    have active : held.stopped.shared.active = 0 := h.active
    rw [Shared.isDone, queue, active]
    rfl
  have does : Does c held (stop c.scheduler) (.done .null) held.stopped := by
    refine stop_does h.one (.inl h.rootState) (fun _ => .pure _) fun busy => ?_
    rw [finished] at busy
    cases busy
  refine ⟨_, stopStep_runs (u := held.stopped) named frames signal does, rfl, rfl, h.queue,
    h.active, fun _ mem => absurd mem List.not_mem_nil, fun busy => absurd rfl busy,
    fun _ => ⟨rfl, rfl, rfl⟩, rfl, ?_⟩
  rw [List.map_nil, drain, List.append_nil]
  rfl

/-- A stop that finds something to run. -/
theorem Standby.stops_busy (h : Standby c chain items v) (busy : items ≠ [])
    (mappable : Mappable c.config.stackSize usable) (room : c.config.pool * 8 < rowLimit)
    (named : c.names.schedulers.get? name = some c.scheduler)
    (frames : v.frames = .steps (.perform verb (.scheduler (.stop name)) :: rest) label :: base)
    (signal : v.signal = .done d) :
    ∃ u, Stopped c (stopFrames verb label rest base) items v u := by
  let held : View :=
    { v with
      handles := v.handles + 1
      frames := .release [.scheduler c.scheduler] :: stopFrames verb label rest base }
  let waits : View :=
    { held.stopped with
      fibers := v.fibers.retain c.root
      frames := .release [.fiber c.root] :: .stopJoin c.scheduler :: held.frames }
  have ground : Ground waits chain _ := h.ground.retain.congr rfl rfl rfl
  obtain ⟨t, caller, entry, ok, told, floor, entered⟩ := ground.entered (Item.stocks_idle items)
  have finished : held.stopped.shared.isDone = false := by
    have queue : held.stopped.shared.queue = items.map Item.entry := h.queue
    have some : (items.map Item.entry).isEmpty = false := by
      rw [List.isEmpty_eq_false_iff]
      exact fun e => busy (List.map_eq_nil_iff.mp e)
    rw [Shared.isDone, queue, some, Bool.and_false, Bool.false_and]
  have does : Does c held (stop c.scheduler) (.done .null) (waits.followed t) := by
    refine stop_does h.one (.inl h.rootState) (fun done => ?_) fun _ x is => ?_
    · rw [finished] at done
      cases done
    · have gone := stopWorkers_does (v := held.stopped) is.root is.owner h.rootState finished ok
      rw [told] at gone
      exact gone
  let u₁ : View := { waits.followed t with signal := .done .null }
  have first : Runs c v u₁ := stopStep_runs (u := waits.followed t) named frames signal does
  have floor : Floor u₁ c.root (caller :: chain) _ := floor.congr rfl rfl rfl
  have starts : u₁.frames = [.fiberStart c.root] := entered
  obtain ⟨idle, u₂, second, between, handles₂, reports₂⟩ :=
    root_begins mappable room starts rfl floor h.queue h.active rfl rfl h.fits
  obtain ⟨pooled, done, u₃, third, between, handles₃, reports₃⟩ :=
    between.drains h.one mappable _ rfl
  have several : 2 ≤ u₃.handles := by
    rw [handles₃, handles₂]
    exact Nat.succ_le_succ (Nat.succ_le_succ (Nat.zero_le _))
  obtain ⟨u₄, fourth, floor, frames₄, signal₄, shared₄, handles₄, reports₄⟩ :=
    between.leaves several
  obtain ⟨u, fifth, holds, root, frames₅, signal₅, shared₅, handles₅, reports₅⟩ :=
    joins_runs frames₄ signal₄ floor
  refine ⟨u, first.trans (second.trans (third.trans (fourth.trans fifth))), frames₅, signal₅,
    ?_, ?_, fun id mem => ?_, fun _ => root, fun none => absurd none busy, ?_, ?_⟩
  · rw [shared₅, shared₄]
    exact between.queue
  · rw [shared₅, shared₄]
    exact between.active
  · rcases between.mine id mem with ended | waiting
    · obtain ⟨x, member, rfl⟩ := List.mem_map.mp ended
      obtain ⟨⟨r, found, state, entry, _⟩, _⟩ := holds x member
      have ended := between.spent x member
      exact ⟨r, found, state ▸ ended.state, entry.trans ended.entry⟩
    · cases waiting
  · rw [handles₅, handles₄, handles₃, handles₂]
    rfl
  · rw [reports₅, reports₄, reports₃, reports₂]
    rfl

theorem Standby.stops (h : Standby c chain items v)
    (mappable : Mappable c.config.stackSize usable) (room : c.config.pool * 8 < rowLimit)
    (named : c.names.schedulers.get? name = some c.scheduler)
    (frames : v.frames = .steps (.perform verb (.scheduler (.stop name)) :: rest) label :: base)
    (signal : v.signal = .done d) :
    ∃ u, Stopped c (stopFrames verb label rest base) items v u := by
  cases items with
  | nil => exact h.stops_idle named frames signal
  | cons i items => exact h.stops_busy nofun mappable room named frames signal

variable {w : World}

/-- What a stop answers is the time, where it is reproducible. -/
theorem Shows.answersClock (h : Shows c v w) (frames : v.frames = .answerClock :: base)
    (signal : v.signal = .done d) :
    ∃ n w', Passes w w' ∧ Shows c { v with frames := base, signal := .done (c.count n) } w' := by
  let asked := w.popped base
  have after : Shows c { v with frames := base } asked := h.popped base
  have goes : proceedWith .answerClock v.signal =
      (do let t ← clockAnswer; return .done t) := by
    rw [signal]
    rfl
  have answer : (if asked.isConcurrent then Datum.null else .nat asked.elapsed) =
      c.count asked.elapsed := by
    rw [World.isConcurrent, Site.count, after.timing]
  have performed : asked.perform (proceedWith .answerClock v.signal) =
      (.done (c.count asked.elapsed), asked) := by
    rw [goes, ← answer]
    rfl
  exact ⟨asked.elapsed, h.passes frames performed after⟩

/-- A stop returns to its script, which reports it. -/
theorem stop_returns
    (frames : u.frames = .release [.scheduler c.scheduler] :: stopFrames verb label rest base)
    (signal : u.signal = .done .null) (shows : Shows c u w) (several : 1 < u.handles) :
    ∃ n w', Passes w w' ∧
      Shows c
        { u with
          frames := stepFrames label rest ++ base
          signal := .done .null
          handles := u.handles - 1
          reports := u.reports ++ [(verb, c.count n)] } w' := by
  let freed : View :=
    { u with frames := stopFrames verb label rest base, handles := u.handles - 1 }
  have first : Runs c u freed := by
    have goes : proceedWith (.release [.scheduler c.scheduler]) u.signal =
        (do release [.scheduler c.scheduler]; return .done .null) := by
      rw [signal]
      rfl
    have free := release_scheduler_does (c := c)
      (v := { u with frames := stopFrames verb label rest base }) several
    exact .of_act frames goes (signal ▸ free.bind (.pure _))
  obtain ⟨w₁, passes₁, shows₁⟩ := first w shows
  obtain ⟨n, w₂, passes₂, shows₂⟩ := shows₁.answersClock rfl signal
  let answered : View :=
    { freed with
      frames := .report verb label :: (stepFrames label rest ++ base)
      signal := .done (c.count n) }
  let told : View :=
    { u with
      frames := stepFrames label rest ++ base
      signal := .done .null
      handles := u.handles - 1
      reports := u.reports ++ [(verb, c.count n)] }
  have last : Runs c answered told := by
    have goes : proceedWith (.report verb label) answered.signal =
        (do report verb label (c.count n); return .done .null) := rfl
    exact .of_act rfl goes ((report_does _ _ _).bind (.pure _))
  obtain ⟨w', passes', shows'⟩ := last w₂ shows₂
  exact ⟨n, w', passes₁.trans (passes₂.trans passes'), shows'⟩

/-- The first stop of a scheduler with one worker runs what is queued as the reference machine does:
first in, first out, a yield going behind all that its segment queued. Every action of every body is
reported once, each fiber that can still be asked has come to its end, and nothing is left; the
number of callback fibers that are kept and the panics of bodies make no difference to the order. -/
theorem first_stop_runs_in_order (shows : Shows c v w) (h : Standby c chain items v)
    (mappable : Mappable c.config.stackSize usable) (room : c.config.pool * 8 < rowLimit)
    (named : c.names.schedulers.get? name = some c.scheduler)
    (frames : v.frames = .steps (.perform verb (.scheduler (.stop name)) :: rest) label :: base)
    (signal : v.signal = .done d) :
    ∃ n w', Passes w w' ∧ w'.thread.frames = stepFrames label rest ++ base ∧
      w'.reports = w.reports ++ drain c.count (items.map Item.job) ++ [(verb, c.count n)] ∧
      (∃ x, w'.schedulers.get? c.scheduler = some x ∧ x.shared.queue = [] ∧
        x.shared.active = 0) ∧
      (∀ id ∈ items.flatMap Item.family,
        ∃ r, w'.fibers.get? id = some r ∧ r.state.isTerminal = true ∧ r.entry = none) ∧
      ((drain c.count (items.map Item.job)).map Prod.fst).Perm
        ((items.map Item.job).flatMap Job.verbs) ∧
      drain c.count ((items.map Item.job).map Job.calm) = drain c.count (items.map Item.job) := by
  obtain ⟨u, stopped⟩ := h.stops mappable room named frames signal
  obtain ⟨w₁, first, shows₁⟩ := stopped.runs w shows
  have several : 1 < u.handles := by
    rw [stopped.handles]
    exact Nat.succ_le_succ h.held
  obtain ⟨n, w', second, shows'⟩ := stop_returns stopped.frames stopped.signal shows₁ several
  refine ⟨n, w', first.trans second, shows'.thread.frames, ?_, ?_, ?_, drain_verbs _ _,
    drain_calm _ _⟩
  · rw [shows'.reports, stopped.reports, shows.reports]
  · obtain ⟨x, found, is⟩ := shows'.record
    refine ⟨x, found, ?_, ?_⟩
    · rw [is.shared]
      exact stopped.queue
    · rw [is.shared]
      exact stopped.active
  · intro id mem
    rw [shows'.fibers]
    exact stopped.spent id mem

/-- A script that queues a fiber and, for worker 0, a callback that panics, and then stops their
scheduler, which may keep `pool` callback fibers. -/
def queueingScript (pool : Nat) : Program :=
  ⟨#[[.perform "sched_new" (.scheduler (.new "s" ⟨false, .empty, [.pool pool]⟩ none)),
      .perform "start" (.scheduler (.start "s")),
      .perform "spawn" (.fiber (.spawn "f" ⟨.block 1, none, none, false, none⟩)),
      .perform "schedule" (.scheduler (.schedule "s" (.fiber "f"))),
      .perform "schedule_on" (.scheduler (.scheduleOn "s" (.callback (.block 2) none) 0)),
      .perform "stop" (.scheduler (.stop "s"))],
    [.perform "log" (.fiber (.log (.text "early"))), .perform "yield_ready" (.fiber .yieldReady),
      .perform "log" (.fiber (.log (.text "late")))],
    [.perform "log" (.fiber (.log (.text "broken"))), .panic (.text "broken")]]⟩

def queuedItems : List Item :=
  [.fresh (.fiber "f" ⟨2⟩ 1 "main") true "main" false
      (.notes "log" (.text "early")
        (.yields "yield_ready" (.notes "log" (.text "late") (.ends none)))),
    .fresh (.callback 2 none) true "main" true
      (.notes "log" (.text "broken") (.ends (some (.text "broken"))))]

/-- The root fiber and the fiber of the script. -/
def queuedFibers : FiberTable Body :=
  let rooted := (FiberTable.empty.create (.root 1) 131072 false).1
  (rooted.create (.script 1 "main") 131072 false).1.retain ⟨2⟩

/-- What the script has left when it comes to its last step. -/
def queuedFrames : List Frame := [.steps [.perform "stop" (.scheduler (.stop "s"))] "main"]

/-- The script at its last step, which is the first thing that is reported. -/
def queuedWorld (pool : Nat) : World :=
  { World.start (queueingScript pool) .frozen .empty .fresh true none "main" with
    fibers := queuedFibers
    saved := (Table.empty.put ⟨1⟩ [.fiberStart ⟨1⟩]).put ⟨2⟩ [.fiberStart ⟨2⟩]
    threads := Table.empty.put mainThread (.fresh queuedFrames (some 1))
    schedulers := Table.empty.put 1
      { config := { SchedulerConfig.standard with pool := pool }
        hooks := .parking .fresh
        shared := ⟨queuedItems.map Item.entry, 0, 0, true, false, false⟩
        root := some ⟨1⟩
        owner := some mainThread
        workers := []
        threadIds := 1
        handles := 1 }
    names :=
      { Names.empty with
        fibers := Table.empty.put "f" ⟨2⟩
        schedulers := Table.empty.put "s" 1 }
    lastId := 1 }

def queuedSite (pool : Nat) : Site where
  program := queueingScript pool
  names := (queuedWorld pool).names
  timing := .frozen
  scheduler := 1
  config := { SchedulerConfig.standard with pool := pool }
  root := ⟨1⟩

def queuedView : View where
  fibers := queuedFibers
  saved := (queuedWorld 1).saved
  frames := queuedFrames
  signal := .done .null
  current := none
  shared := ⟨queuedItems.map Item.entry, 0, 0, true, false, false⟩
  handles := 1
  reports := []

theorem queuedWorld_shows (pool : Nat) : Shows (queuedSite pool) queuedView (queuedWorld pool) where
  program := rfl
  names := rfl
  timing := rfl
  aborted := rfl
  running := rfl
  threads := ⟨_, rfl, rfl, rfl, rfl, rfl, rfl, rfl⟩
  record := ⟨_, rfl, rfl, rfl, ⟨_, rfl⟩, rfl, rfl, rfl, rfl⟩
  fibers := rfl
  saved := rfl
  reports := rfl
  mmap := rfl
  mprotect := rfl

theorem queuedFibers_settled : queuedFibers.Settled := by
  have empty : (FiberTable.empty : FiberTable Body).Settled := ⟨nofun, nofun⟩
  have made := (empty.create (.root 1) 131072 false).create (.script 1 "main") 131072 false
  exact made.of_same (fun _ => FiberTable.standing_modify_same _ _ _ fun _ => rfl) rfl

theorem queuedView_standby (pool : Nat) : Standby (queuedSite pool) [] queuedItems queuedView where
  one := rfl
  ground := by
    have distinct : [(⟨1⟩ : FiberId), ⟨2⟩].Nodup := by decide
    refine ⟨⟨queuedFibers_settled, rfl⟩, ?_, distinct⟩
    refine List.forall_mem_cons.mpr ⟨?_, List.forall_mem_cons.mpr ⟨?_, nofun⟩⟩
    · refine ⟨⟨_, rfl, rfl, rfl, Nat.le_refl 1⟩, ?_⟩
      rintro _ ⟨⟩
      rfl
    · refine ⟨⟨_, rfl, rfl, rfl, Nat.le_refl 2⟩, ?_⟩
      rintro _ ⟨⟩
      rfl
  queue := rfl
  active := rfl
  fits := List.forall_mem_cons.mpr ⟨⟨rfl, nofun⟩, List.forall_mem_cons.mpr ⟨⟨rfl, nofun⟩, nofun⟩⟩
  held := Nat.le_refl 1

theorem queuedItems_drain (pool : Nat) :
    drain (queuedSite pool).count (queuedItems.map Item.job) =
      [("log", .text "early"), ("log", .text "broken"), ("yield_ready", .null),
        ("log", .text "late")] := by
  simp [drain, queuedItems, Item.job, Job.segment, Code.segment]

/-- The callback runs while the fiber has yielded, and its panic is its own. -/
theorem queued_tasks_run_in_order :
    ∃ n w', Passes (queuedWorld 1) w' ∧ w'.thread.frames = [] ∧
      w'.reports = [("log", .text "early"), ("log", .text "broken"), ("yield_ready", .null),
        ("log", .text "late"), ("stop", .nat n)] ∧
      (w'.fibers.state ⟨2⟩).isTerminal = true := by
  have mappable : Mappable (queuedSite 1).config.stackSize 131072 :=
    ⟨by decide, by decide⟩
  have room : (queuedSite 1).config.pool * 8 < rowLimit := by decide
  have frames : queuedView.frames =
      .steps (.perform "stop" (.scheduler (.stop "s")) :: []) "main" :: [] := rfl
  obtain ⟨n, w', passes, frames, reports, _, spent, _⟩ :=
    first_stop_runs_in_order (queuedWorld_shows 1) (queuedView_standby 1) mappable room rfl frames
      rfl
  obtain ⟨r, found, ended, _⟩ := spent ⟨2⟩ (by decide)
  refine ⟨n, w', passes, frames, ?_, ?_⟩
  · rw [reports, queuedItems_drain]
    rfl
  · rw [FiberTable.state, found]
    exact ended

/-- The script from its start to its end. -/
def queueingEnd (pool : Nat) : World :=
  (World.start (queueingScript pool) .frozen .empty .fresh false none "main").runUpTo 60

/-- A run loop that may keep so many callback fibers that it cannot make room for them ends before
its first turn: the stop returns, and nothing has run of what the reference machine runs. -/
theorem unreservable_pool_runs_nothing :
    (queueingEnd (Nat.pow 2 60)).isOver = true ∧
      (queueingEnd (Nat.pow 2 60)).reports.map Prod.fst =
        ["sched_new", "start", "spawn", "schedule", "schedule_on", "stop"] ∧
      ((queueingEnd (Nat.pow 2 60)).schedulers.get? 1).map (fun x => x.shared.queue.length) =
        some 2 ∧
      (queueingEnd (Nat.pow 2 60)).fibers.state ⟨2⟩ = .init ∧
      (drain (queuedSite (Nat.pow 2 60)).count (queuedItems.map Item.job)).map Prod.fst =
        ["log", "log", "yield_ready", "log"] := by
  refine ⟨?_, ?_, ?_, ?_, ?_⟩
  · decide +kernel
  · decide +kernel
  · decide +kernel
  · decide +kernel
  · rw [queuedItems_drain]
    rfl

end Fibers.Script
