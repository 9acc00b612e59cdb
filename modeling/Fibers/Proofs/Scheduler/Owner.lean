import Fibers.Proofs.Scheduler.Fifo
import Mathlib.Data.List.Induction

/-!
Any sequence of starts, stops and tasks from the thread that owns a scheduler. The root fiber is
resumed by the first stop that finds something to run, which runs all there is. From then on the
root fiber has ended: whatever is queued stays in the queue, and every stop returns at once.
-/

namespace Fibers.Script

/-- A call of the thread that owns a scheduler, reported under a verb. A task is queued for worker 0
or for any. -/
inductive OwnerCall where
  | start (verb : String)
  | queue (verb : String) (pinned : Bool) (origin : Origin) (code : Code)
  | queueAll (verb : String) (tasks : List (Origin × Code))
  | stop (verb : String)

namespace OwnerCall

/-- The step that makes a call on the scheduler of a name. -/
def step (name : String) : OwnerCall → Step
  | .start verb => .perform verb (.scheduler (.start name))
  | .queue verb pinned origin _ => .perform verb (.scheduler (origin.queueing name pinned))
  | .queueAll verb tasks =>
    .perform verb (.scheduler (.scheduleAll name (tasks.map fun t => t.1.spec)))
  | .stop verb => .perform verb (.scheduler (.stop name))

/-- The tasks of a call. -/
def tasks : OwnerCall → List (Origin × Code)
  | .queue _ _ origin code => [(origin, code)]
  | .queueAll _ tasks => tasks
  | _ => []

/-- The entries that a call puts in the queue. -/
def items (label : String) : OwnerCall → List Item
  | .queue _ pinned origin code => [.fresh origin true label pinned code]
  | .queueAll _ tasks => Item.ofTasks label tasks
  | _ => []

/-- The tasks can be run at a site. -/
def Fits (c : Site) (call : OwnerCall) : Prop :=
  ∀ t ∈ call.tasks, t.1.Fits c t.2 ∧ t.2.Fits c

end OwnerCall

/-- How far the owner has come. -/
structure Course where
  /-- The tasks that were run. -/
  ran : List Item
  /-- The tasks in the queue. -/
  waiting : List Item
  /-- Whether the root fiber has ended. -/
  ended : Bool

namespace Course

/-- Nothing was queued, and no stop has run anything. -/
def fresh : Course := ⟨[], [], false⟩

/-- A stop runs what waits, as long as the root fiber has not ended. -/
def stopped (p : Course) : Course :=
  if p.ended then p else ⟨p.ran ++ p.waiting, [], !p.waiting.isEmpty⟩

def after (label : String) (p : Course) : OwnerCall → Course
  | .stop _ => p.stopped
  | call => { p with waiting := p.waiting ++ call.items label }

/-- What a call reports; a stop that takes until `n` reports first what it runs. -/
def tells (c : Site) (p : Course) (n : Nat) : OwnerCall → List (String × Datum)
  | .start verb => [(verb, .ok)]
  | .queue verb _ _ _ => [(verb, c.count (p.waiting.length + 1))]
  | .queueAll verb tasks => [(verb, c.count (p.waiting.length + tasks.length))]
  | .stop verb =>
    (if p.ended then [] else drain c.count (p.waiting.map Item.job)) ++ [(verb, c.count n)]

/-- Some calls, one after the other, and what they report. -/
inductive Tells (c : Site) (label : String) :
    Course → List OwnerCall → List (String × Datum) → Prop where
  | nil (p : Course) : Tells c label p [] []
  | cons {p : Course} {call : OwnerCall} {calls : List OwnerCall} {told : List (String × Datum)}
      (n : Nat) (rest : Tells c label (p.after label call) calls told) :
      Tells c label p (call :: calls) (p.tells c n call ++ told)

/-- How far the owner of a scheduler that was just made is after some calls. -/
def of (label : String) (calls : List OwnerCall) : Course := calls.foldl (after label) fresh

theorem of_append (label : String) (calls : List OwnerCall) (call : OwnerCall) :
    of label (calls ++ [call]) = (of label calls).after label call := List.foldl_append

/-- No task is lost: each that was queued has run or waits. -/
theorem accepted_of (label : String) (calls : List OwnerCall) :
    (of label calls).ran ++ (of label calls).waiting =
      calls.flatMap (OwnerCall.items label) := by
  induction calls using List.reverseRecOn with
  | nil => rfl
  | append_singleton calls call ih =>
    rw [of_append, List.flatMap_append, ← ih, List.flatMap_singleton]
    cases call with
    | stop verb =>
      change _ = _ ++ []
      rw [List.append_nil, after, stopped]
      split
      · rfl
      · exact List.append_nil _
    | start | queue | queueAll => exact (List.append_assoc ..).symm

/-- The root fiber has ended when an earlier stop has found something to run. -/
theorem ended_of_iff (label : String) (calls : List OwnerCall) :
    (of label calls).ended = true ↔
      ∃ earlier verb later, calls = earlier ++ .stop verb :: later ∧
        (of label earlier).waiting ≠ [] := by
  induction calls using List.reverseRecOn with
  | nil =>
    constructor
    · nofun
    · rintro ⟨earlier, verb, later, e, _⟩
      exact absurd e (by simp)
  | append_singleton calls call ih =>
    have step : ((of label calls).after label call).ended = true ↔
        (of label calls).ended = true ∨
          (∃ verb, call = .stop verb) ∧ (of label calls).waiting ≠ [] := by
      cases call with
      | stop verb =>
        rw [after, stopped]
        cases ended : (of label calls).ended with
        | true => simp [ended]
        | false => simp
      | start | queue | queueAll => simp [after]
    rw [of_append, step, ih]
    constructor
    · rintro (⟨earlier, verb, later, rfl, waits⟩ | ⟨⟨verb, rfl⟩, waits⟩)
      · exact ⟨earlier, verb, later ++ [call], by simp, waits⟩
      · exact ⟨calls, verb, [], rfl, waits⟩
    · rintro ⟨earlier, verb, later, e, waits⟩
      rcases List.eq_nil_or_concat later with rfl | ⟨later, last, rfl⟩
      · obtain ⟨rfl, same⟩ := List.append_inj' e rfl
        exact .inr ⟨⟨verb, (List.cons.inj same).1⟩, waits⟩
      · rw [List.concat_eq_append, ← List.cons_append, ← List.append_assoc] at e
        exact .inl ⟨earlier, verb, later, (List.append_inj' e rfl).1, waits⟩

end Course

section

variable {c : Site} {u v : View} {cells : List Cell} {chain : List FiberId} {label : String}
  {α : Type} {a : α} {id : FiberId}

theorem Ground.retained (origin : Origin) {n : Nat}
    (h : Ground v chain (origin.cells n ++ cells)) :
    Ground { v with fibers := origin.retain v.fibers } chain (origin.cells (n + 1) ++ cells) := by
  cases origin with
  | callback block own => exact h
  | fiber name id block label => exact h.retain

/-- Tasks that are queued are no longer among those that are still to be queued. -/
theorem Ground.queued (label : String) (tasks : List (Origin × Code)) {x : Cell}
    {rest : List Cell} (h : Ground v chain (x :: (cells ++ (Code.forests tasks ++ rest)))) :
    Ground { v with fibers := retainTasks tasks v.fibers } chain
      (x :: (cells ++ (Item.ofTasks label tasks).flatMap Item.stock ++ rest)) := by
  have front : Ground v chain (Code.forests tasks ++ (x :: (cells ++ rest))) :=
    h.perm (.trans (.cons x (List.perm_append_comm_assoc ..)) List.perm_middle.symm)
  have known := retainTasks_known
    (motive := fun t xs => Ground { v with fibers := t } chain xs) (fun _ _ _ h p => h.perm p)
    (fun _ origin _ h => h.retained origin) label tasks v.fibers _ front
  refine known.perm (List.perm_middle.trans (.cons x ?_))
  rw [List.append_assoc]
  exact List.perm_append_comm_assoc ..

/-- The body of a fiber has come to its end. -/
def Spent (t : FiberTable Body) (id : FiberId) : Prop :=
  ∃ r, t.get? id = some r ∧ r.state.isTerminal = true ∧ r.entry = none

/-- Queueing tasks changes neither the state of a fiber nor its body. -/
theorem get?_retainTasks (tasks : List (Origin × Code)) (t : FiberTable Body) (id : FiberId) :
    ∃ f : FiberRecord Body → FiberRecord Body,
      (∀ r, (f r).state = r.state ∧ (f r).entry = r.entry) ∧
        (retainTasks tasks t).get? id = (t.get? id).map f := by
  induction tasks generalizing t with
  | nil => exact ⟨fun r => r, fun _ => ⟨rfl, rfl⟩, Option.map_id'.symm⟩
  | cons task tasks ih =>
    obtain ⟨f, same, found⟩ := ih (task.1.retain t)
    have first : ∃ g : FiberRecord Body → FiberRecord Body,
        (∀ r, (g r).state = r.state ∧ (g r).entry = r.entry) ∧
          (task.1.retain t).get? id = (t.get? id).map g := by
      obtain ⟨origin, code⟩ := task
      cases origin with
      | callback block own => exact ⟨fun r => r, fun _ => ⟨rfl, rfl⟩, Option.map_id'.symm⟩
      | fiber name j block label =>
        have other := FiberTable.get?_modify t j id fun r => { r with handles := r.handles + 1 }
        refine ⟨fun r => if id = j then { r with handles := r.handles + 1 } else r,
          fun r => ?_, other.trans ?_⟩
        · dsimp only
          split <;> exact ⟨rfl, rfl⟩
        · split
          · rfl
          · exact Option.map_id'.symm
    obtain ⟨g, same', found'⟩ := first
    refine ⟨f ∘ g, fun r => ?_, ?_⟩
    · exact ⟨(same _).1.trans (same' r).1, (same _).2.trans (same' r).2⟩
    · change (retainTasks tasks (task.1.retain t)).get? id = _
      rw [found, found', Option.map_map]

theorem Spent.retained {t : FiberTable Body} (h : Spent t id) (tasks : List (Origin × Code)) :
    Spent (retainTasks tasks t) id := by
  obtain ⟨r, found, state, entry⟩ := h
  obtain ⟨f, same, known⟩ := get?_retainTasks tasks t id
  refine ⟨f r, by rw [known, found]; rfl, ?_, ?_⟩
  · rw [(same r).1]
    exact state
  · rw [(same r).2]
    exact entry

theorem state_retainTasks (tasks : List (Origin × Code)) (t : FiberTable Body) (id : FiberId) :
    (retainTasks tasks t).state id = t.state id := by
  obtain ⟨f, same, known⟩ := get?_retainTasks tasks t id
  unfold FiberTable.state
  rw [known]
  cases t.get? id with
  | none => rfl
  | some r => exact (same r).1

end

/-- An effect leads from a view to another one, in which the thread begins to wait. -/
def Parks (c : Site) (v : View) (act : Act Signal) (wait : Wait) (v' : View) : Prop :=
  ∀ w, Shows c v w → ∃ w',
    act.on w = (.ok (.done .null), w'.updateThread fun t => { t with wait := some wait }) ∧
      Shows c v' w'

section

variable {c : Site} {u v v' : View} {w : World} {wait : Wait} {α : Type} {a : α}
  {f : Frame} {rest : List Frame}

theorem Parks.waitFor (wait : Wait) : Parks c v (waitFor wait) wait v := fun w shows =>
  ⟨w, rfl, shows⟩

theorem Does.parks {x : Act α} {g : α → Act Signal} (h : Does c v x a u)
    (parks : Parks c u (g a) wait v') : Parks c v (x >>= g) wait v' := by
  intro w shows
  obtain ⟨w₁, first, shows₁⟩ := h w shows
  obtain ⟨w', second, shows'⟩ := parks w₁ shows₁
  exact ⟨w', (Act.on_bind_ok first).trans second, shows'⟩

theorem Parks.record {g : SchedulerRecord → Act Signal}
    (h : ∀ x, c.IsRecord v.shared v.handles x → Parks c v (g x) wait v') :
    Parks c v (schedulerRecord c.scheduler >>= g) wait v' := by
  intro w shows
  obtain ⟨x, found, is⟩ := shows.record
  rw [Act.on_bind_ok (schedulerRecord_on c.scheduler w), found]
  exact h x is w shows

theorem Parks.startSteps {label : String} {step : Step} {steps : List Step}
    (h : Parks c { v with frames := stepFrames label steps ++ v.frames } (startStep label step)
      wait v') : Parks c v (startSteps label (step :: steps)) wait v' := by
  cases steps with
  | nil => exact h
  | cons next steps => exact (push_does _).parks h

/-- The workers are up at once where there are none, and the thread goes on a round later. -/
theorem Parks.passes (frames : v.frames = f :: rest)
    (h : Parks c { v with frames := rest } (proceedWith f v.signal) (.workersUp []) v')
    (shows : Shows c v w) :
    ∃ w', Passes w w' ∧ Shows c { v' with signal := .done .null } w' := by
  obtain ⟨w₁, did, shows₁⟩ := h _ (shows.popped rest)
  obtain ⟨clock, first⟩ := shows.round frames (perform_of_ok did)
  obtain ⟨t, entries, is⟩ := shows₁.threads
  let waits : Thread := { t with wait := some (.workersUp []), signal := .done .null }
  let goes : Thread := { t with wait := none, signal := .done .null }
  let w₂ : World := { w₁ with threads := ⟨[(mainThread, waits)]⟩, clock := clock }
  let w₃ : World := { w₁ with threads := ⟨[(mainThread, goes)]⟩, clock := clock }
  have first : w.round = some w₂ := by
    rw [first]
    simp only [World.updateThread, Table.modify, entries, shows₁.running, w₂, waits]
    rfl
  have running : w₂.running = mainThread := shows₁.running
  have alive : w₂.aborted = false := shows₁.aborted
  have step : w₂.step = (true, w₃) := by
    have thread : w₂.thread = waits := by
      rw [World.thread, running]
      rfl
    have ended : waits.ended = none := is.ended
    simp only [World.step, thread, ended, Option.isSome_none, Bool.false_eq_true, if_false]
    simp only [waits, World.updateThread, Table.modify, shows₁.running, w₂, w₃, goes]
    rfl
  obtain ⟨clock', second⟩ := World.round_of_step (t := waits) rfl running alive step
  have past : w₂.isOver = false := by
    have found : w₂.threads.get? mainThread = some waits := rfl
    simp only [World.isOver, World.hasEnded, alive, found, waits, is.ended, Option.isSome_none,
      Bool.or_self]
  refine ⟨{ w₃ with clock := clock' }, ⟨2, fun k => ?_⟩, ?_⟩
  · rw [Nat.add_comm 2 k, World.runUpTo, shows.notOver, if_neg Bool.false_ne_true, first]
    dsimp only
    rw [World.runUpTo, past, if_neg Bool.false_ne_true, second]
  · exact
      { shows₁ with
        threads := ⟨goes, rfl, { is with signal := rfl, wait := rfl }⟩ }

end

section

variable {c : Site} {u v : View} {w : World} {chain : List FiberId} {p : Course}
  {call : OwnerCall} {later calls : List OwnerCall} {frames base : List Frame} {rest : List Step}
  {name verb label : String} {d : Datum} {usable : Nat}

/-- The root fiber before it begins. -/
def Site.rootCell (c : Site) : Cell :=
  ⟨c.root, .init, some (.root c.scheduler), 1, some [.fiberStart c.root]⟩

/-- The owner has come so far, and has some calls before it. Until the root fiber has begun, nothing
has run, and what is queued and what is still to be queued is as it was made. -/
structure OnCourse (c : Site) (chain : List FiberId) (p : Course) (later : List OwnerCall)
    (v : View) : Prop where
  queue : v.shared.queue = p.waiting.map Item.entry
  active : v.shared.active = 0
  fits : ∀ i ∈ p.waiting, i.Fits c
  held : 1 ≤ v.handles
  spent : ∀ id ∈ p.ran.flatMap Item.family, Spent v.fibers id
  unbegun : p.ended = false → p.ran = [] ∧
    Ground v chain (c.rootCell ::
      (p.waiting.flatMap Item.stock ++ Code.forests (later.flatMap OwnerCall.tasks)))
  past : p.ended = true → v.fibers.state c.root = .term

/-- A change that no fiber and no entry notices. -/
theorem OnCourse.congr (h : OnCourse c chain p later v) (fibers : u.fibers = v.fibers)
    (saved : u.saved = v.saved) (current : u.current = v.current)
    (queue : u.shared.queue = v.shared.queue) (active : u.shared.active = v.shared.active)
    (handles : u.handles = v.handles) : OnCourse c chain p later u where
  queue := queue.trans h.queue
  active := active.trans h.active
  fits := h.fits
  held := handles ▸ h.held
  spent := fibers ▸ h.spent
  unbegun young := ⟨(h.unbegun young).1, (h.unbegun young).2.congr fibers saved current⟩
  past ended := fibers ▸ h.past ended

theorem Code.forests_append (xs ys : List (Origin × Code)) :
    Code.forests (xs ++ ys) = Code.forests xs ++ Code.forests ys := by
  induction xs with
  | nil => rfl
  | cons t xs ih =>
    obtain ⟨origin, code⟩ := t
    rw [List.cons_append, Code.forests, Code.forests, ih]
    simp only [List.append_assoc]

/-- The fibers of what a call queues, whether for worker 0 or for any. -/
theorem OwnerCall.stock (label : String) (call : OwnerCall) :
    (call.items label).flatMap Item.stock =
      (Item.ofTasks label call.tasks).flatMap Item.stock := by
  cases call <;> rfl

theorem OwnerCall.Fits.items (h : call.Fits c) (label : String) :
    ∀ i ∈ call.items label, i.Fits c := by
  cases call with
  | start | stop => nofun
  | queue verb pinned origin code =>
    have fits := h _ List.mem_cons_self
    exact List.forall_mem_cons.mpr ⟨⟨fits.1.runs, fits.2⟩, nofun⟩
  | queueAll verb tasks =>
    intro i mem
    obtain ⟨t, member, rfl⟩ := List.mem_map.mp mem
    have fits := h t member
    exact ⟨fits.1.runs, fits.2⟩

/-- What is queued goes behind what waits. -/
theorem OnCourse.queued (h : OnCourse c chain p (call :: later) v) (fits : call.Fits c)
    (label : String) :
    OnCourse c chain { p with waiting := p.waiting ++ call.items label } later
      (v.queued (retainTasks call.tasks v.fibers) ((call.items label).map Item.entry)) where
  queue := by
    rw [List.map_append, ← h.queue]
    rfl
  active := h.active
  fits := List.forall_mem_append.mpr ⟨h.fits, fits.items label⟩
  held := h.held
  spent id mem := (h.spent id mem).retained call.tasks
  unbegun young := by
    obtain ⟨none, ground⟩ := h.unbegun young
    rw [List.flatMap_cons, Code.forests_append] at ground
    refine ⟨none, ?_⟩
    rw [List.flatMap_append, call.stock label]
    exact (ground.queued label call.tasks).congr rfl rfl rfl
  past ended := (state_retainTasks ..).trans (h.past ended)

/-- A call that queues tasks. -/
theorem OnCourse.queues (label : String) (h : OnCourse c chain p (call :: later) v)
    (fits : call.Fits c) {action : Action} {res : Datum}
    (does : ∀ u : View, u.fibers = v.fibers → u.shared = v.shared →
      Does c u (perform label action) (.done res)
        (u.queued (retainTasks call.tasks v.fibers) ((call.items label).map Item.entry)))
    (frames : v.frames = .steps (.perform verb action :: rest) label :: base)
    (signal : v.signal = .done d) :
    ∃ u, Runs c v u ∧
      OnCourse c chain { p with waiting := p.waiting ++ call.items label } later u ∧
      u.frames = stepFrames label rest ++ base ∧ u.signal = .done .null ∧
      u.reports = v.reports ++ [(verb, res)] :=
  ⟨_, perform_runs (v.queued _ _) frames signal (does _ rfl rfl),
    (h.queued fits label).congr rfl rfl rfl rfl rfl rfl, rfl, rfl, rfl⟩

/-- A start returns to its script, which reports it. -/
theorem start_returns (several : 1 < v.handles)
    (frames : v.frames =
      .release [.scheduler c.scheduler] :: .report verb label :: (stepFrames label rest ++ base))
    (signal : v.signal = .done .ok) :
    Runs c v
      { v with
        frames := stepFrames label rest ++ base
        signal := .done .null
        handles := v.handles - 1
        reports := v.reports ++ [(verb, .ok)] } := by
  let freed : View :=
    { v with
      frames := .report verb label :: (stepFrames label rest ++ base)
      handles := v.handles - 1 }
  have first : Runs c v freed := by
    have goes : proceedWith (.release [.scheduler c.scheduler]) v.signal =
        (do release [.scheduler c.scheduler]; return .done .ok) := by
      rw [signal]
      rfl
    have free := release_scheduler_does (c := c)
      (v := { v with frames := .report verb label :: (stepFrames label rest ++ base) }) several
    exact .of_act frames goes (signal ▸ free.bind (.pure _))
  have goes : proceedWith (.report verb label) v.signal =
      (do report verb label .ok; return .done .null) := by
    rw [signal]
    rfl
  exact first.trans (.of_act rfl goes ((report_does _ _ _).bind (.pure _)))

/-- A start. The first one waits for the workers, of which there are none. -/
theorem start_passes (one : c.config.threads = 1) (caller : c.config.useCaller = true)
    (named : c.names.schedulers.get? name = some c.scheduler) (held : 1 ≤ v.handles)
    (frames : v.frames = .steps (.perform verb (.scheduler (.start name)) :: rest) label :: base)
    (signal : v.signal = .done d) (shows : Shows c v w) :
    ∃ w', Passes w w' ∧
      Shows c
        { v with
          frames := stepFrames label rest ++ base
          signal := .done .null
          shared := if v.shared.started then v.shared else v.shared.start
          reports := v.reports ++ [(verb, .ok)] } w' := by
  let held' : View :=
    { v with
      handles := v.handles + 1
      frames := .release [.scheduler c.scheduler] :: .report verb label ::
        (stepFrames label rest ++ base) }
  have goes : proceedWith (.steps (.perform verb (.scheduler (.start name)) :: rest) label)
      v.signal = startSteps label (.perform verb (.scheduler (.start name)) :: rest) := by
    rw [signal]
    rfl
  have several : 1 < held'.handles := Nat.succ_le_succ held
  cases started : v.shared.started with
  | true =>
    let told : View := { held' with signal := .done .ok }
    have first : Runs c v told := by
      refine .of_act frames goes (startSteps_does ((push_does _).bind ?_))
      refine (schedulerNamed_does named).bind ((retain_scheduler_does.bind (push_does _)).bind ?_)
      refine Does.record fun x is => ?_
      rw [is.shared, started, if_pos rfl]
      exact .pure _
    obtain ⟨w', passes, shows'⟩ :=
      first.trans (start_returns (v := told) several rfl rfl) w shows
    exact ⟨w', passes, shows'⟩
  | false =>
    let waits : View :=
      { held' with
        shared := v.shared.start
        frames := .startReady c.scheduler :: held'.frames }
    have parks : Parks c { v with frames := base }
        (proceedWith (.steps (.perform verb (.scheduler (.start name)) :: rest) label) v.signal)
        (.workersUp []) waits := by
      rw [goes]
      refine .startSteps ((push_does _).parks ?_)
      refine (schedulerNamed_does named).parks
        ((retain_scheduler_does.bind (push_does _)).parks (.record fun x is => ?_))
      rw [is.shared, is.config, started, if_neg Bool.false_ne_true]
      dsimp only
      rw [one, if_pos caller]
      refine (updateShared_does _).parks ((Does.pure (Except.ok ())).parks ((push_does _).parks ?_))
      refine .record fun x is => ?_
      rw [is.workers]
      exact .waitFor _
    obtain ⟨w₁, passes₁, shows₁⟩ := parks.passes frames shows
    let told : View := { waits with frames := held'.frames, signal := .done .ok }
    have ready : Runs c { waits with signal := .done .null } told :=
      .of_act rfl rfl (Does.record fun _ _ => (Does.log _ _).bind (.pure _))
    obtain ⟨w', passes', shows'⟩ :=
      ready.trans (start_returns (v := told) several rfl rfl) w₁ shows₁
    exact ⟨w', passes₁.trans passes', shows'⟩

/-- A stop after the root fiber has ended runs nothing. -/
theorem stop_rests (one : c.config.threads = 1)
    (named : c.names.schedulers.get? name = some c.scheduler)
    (past : v.fibers.state c.root = .term)
    (frames : v.frames = .steps (.perform verb (.scheduler (.stop name)) :: rest) label :: base)
    (signal : v.signal = .done d) :
    Runs c v
      { v.stopped with
        handles := v.handles + 1
        frames := .release [.scheduler c.scheduler] :: stopFrames verb label rest base
        signal := .done .null } := by
  let held : View :=
    { v with
      handles := v.handles + 1
      frames := .release [.scheduler c.scheduler] :: stopFrames verb label rest base }
  cases finished : held.stopped.shared.isDone with
  | true =>
    have does : Does c held (stop c.scheduler) (.done .null) held.stopped := by
      refine stop_does one (.inr past) (fun _ => .pure _) fun busy => ?_
      rw [finished] at busy
      cases busy
    exact stopStep_runs (u := held.stopped) named frames signal does
  | false =>
    let joins : View := { held.stopped with frames := .stopJoin c.scheduler :: held.frames }
    have does : Does c held (stop c.scheduler) (.done .null) joins := by
      refine stop_does one (.inr past) (fun done => ?_) fun _ x is => ?_
      · rw [finished] at done
        cases done
      · refine stopWorkers_asks is.root is.owner fun w shows => ?_
        have stays :
            ¬((w.fibers.state c.root).isResumable && !w.isStopping c.scheduler) = true := by
          have state : w.fibers.state c.root = .term := shows.fibers ▸ past
          rw [state]
          exact Bool.false_ne_true
        rw [if_neg stays]
        exact .pure _
    have first : Runs c v { joins with signal := .done .null } :=
      stopStep_runs (u := joins) named frames signal does
    exact first.trans (.of_act rfl rfl stopJoin_does)

theorem Ground.left {x : Cell} {cells more : List Cell}
    (h : Ground v chain (x :: (cells ++ more))) : Ground v chain (x :: cells) where
  order := h.order
  holds y mem := h.holds y (List.mem_append_left more mem)
  distinct := by
    have distinct := h.distinct
    rw [← List.cons_append, List.map_append] at distinct
    exact distinct.of_append_left

/-- Until the root fiber has begun, a stop is a first one. -/
theorem OnCourse.standby (h : OnCourse c chain p later v) (one : c.config.threads = 1)
    (young : p.ended = false) : Standby c chain p.waiting v where
  one := one
  ground := (h.unbegun young).2.left
  queue := h.queue
  active := h.active
  fits := h.fits
  held := h.held

/-- A stop. -/
theorem OnCourse.stops (h : OnCourse c chain p (.stop verb :: later) v)
    (one : c.config.threads = 1) (mappable : Mappable c.config.stackSize usable)
    (room : c.config.pool * 8 < rowLimit)
    (named : c.names.schedulers.get? name = some c.scheduler)
    (frames : v.frames = .steps (.perform verb (.scheduler (.stop name)) :: rest) label :: base)
    (signal : v.signal = .done d) :
    ∃ u, Runs c v u ∧ OnCourse c chain p.stopped later { u with handles := u.handles - 1 } ∧
      1 < u.handles ∧
      u.frames = .release [.scheduler c.scheduler] :: stopFrames verb label rest base ∧
      u.signal = .done .null ∧
      u.reports = v.reports ++
        (if p.ended then [] else drain c.count (p.waiting.map Item.job)) := by
  cases ended : p.ended with
  | true =>
    have past := h.past ended
    refine ⟨_, stop_rests one named past frames signal, ?_, Nat.succ_le_succ h.held, rfl, rfl, ?_⟩
    · rw [Course.stopped, if_pos ended]
      refine
        { queue := h.queue, active := h.active, fits := h.fits, held := h.held, spent := h.spent
          unbegun := fun young => ?_, past := fun _ => past }
      rw [ended] at young
      cases young
    · exact (List.append_nil _).symm
  | false =>
    obtain ⟨u, stopped⟩ := (h.standby one ended).stops mappable room named frames signal
    obtain ⟨none, ground⟩ := h.unbegun ended
    have held : u.handles - 1 = v.handles := by
      rw [stopped.handles]
      rfl
    have idle : (!p.waiting.isEmpty) = false → p.waiting = [] := by
      intro young
      rwa [Bool.not_eq_false', List.isEmpty_iff] at young
    have busy : (!p.waiting.isEmpty) = true → p.waiting ≠ [] := by
      rintro past nothing
      rw [nothing] at past
      cases past
    refine ⟨u, stopped.runs, ?_, ?_, stopped.frames, stopped.signal, stopped.reports⟩
    · rw [Course.stopped, ended, none]
      refine
        { queue := stopped.queue, active := stopped.active, fits := nofun, held := held ▸ h.held
          spent := stopped.spent, unbegun := fun young => ⟨idle young, ?_⟩
          past := fun past => stopped.ended (busy past) }
      obtain ⟨fibers, saved, current⟩ := stopped.calm (idle young)
      rw [idle young] at ground
      exact ground.congr fibers saved current
    · rw [stopped.handles]
      exact Nat.succ_le_succ h.held

/-- One call leads from one course to the next. -/
theorem OnCourse.goes (h : OnCourse c chain p (call :: later) v)
    (one : c.config.threads = 1) (caller : c.config.useCaller = true)
    (mappable : Mappable c.config.stackSize usable) (room : c.config.pool * 8 < rowLimit)
    (named : c.names.schedulers.get? name = some c.scheduler) (fits : call.Fits c)
    (frames : v.frames = .steps (call.step name :: rest) label :: base)
    (signal : v.signal = .done d) (shows : Shows c v w) :
    ∃ n u w', Passes w w' ∧ Shows c u w' ∧ OnCourse c chain (p.after label call) later u ∧
      u.frames = stepFrames label rest ++ base ∧ u.signal = .done .null ∧
      u.reports = v.reports ++ p.tells c n call := by
  have length : v.shared.queue.length = p.waiting.length := by
    rw [h.queue, List.length_map]
  cases call with
  | start verb =>
    obtain ⟨w', passes, shows'⟩ := start_passes one caller named h.held frames signal shows
    let shared := if v.shared.started then v.shared else v.shared.start
    have same : shared.queue = v.shared.queue ∧ shared.active = v.shared.active := by
      unfold shared
      split <;> exact ⟨rfl, rfl⟩
    refine ⟨0, _, w', passes, shows', ?_, rfl, rfl, rfl⟩
    have queue := same.1.trans (List.append_nil _).symm
    exact (h.queued fits label).congr rfl rfl rfl queue same.2 rfl
  | queue verb pinned origin code =>
    have known := fits _ List.mem_cons_self
    have does : ∀ u : View, u.fibers = v.fibers → u.shared = v.shared →
        Does c u (perform label (.scheduler (origin.queueing name pinned)))
          (.done (c.count (p.waiting.length + 1)))
          (u.queued (origin.retain v.fibers) [origin.entry label pinned]) := by
      intro u fibers shared
      rw [← length, ← fibers, ← shared]
      exact queueing_does named one pinned known.1.named label
    obtain ⟨u, runs, course, told⟩ := h.queues label fits does frames signal
    obtain ⟨w', passes, shows'⟩ := runs w shows
    exact ⟨0, u, w', passes, shows', course, told⟩
  | queueAll verb tasks =>
    have does : ∀ u : View, u.fibers = v.fibers → u.shared = v.shared →
        Does c u
          (perform label (.scheduler (.scheduleAll name (tasks.map fun t => t.1.spec))))
          (.done (c.count (p.waiting.length + tasks.length)))
          (u.queued (retainTasks tasks v.fibers) ((Item.ofTasks label tasks).map Item.entry)) := by
      intro u fibers shared
      rw [← length, ← fibers, ← shared, Item.ofTasks, List.map_map]
      exact queueingAll_does named (fun t mem => (fits t mem).1.named) label
    obtain ⟨u, runs, course, told⟩ := h.queues label fits does frames signal
    obtain ⟨w', passes, shows'⟩ := runs w shows
    exact ⟨0, u, w', passes, shows', course, told⟩
  | stop verb =>
    obtain ⟨u, runs, course, several, frames, signal, reports⟩ :=
      h.stops one mappable room named frames signal
    obtain ⟨w₁, first, shows₁⟩ := runs w shows
    obtain ⟨n, w', second, shows'⟩ := stop_returns frames signal shows₁ several
    refine ⟨n, _, w', first.trans second, shows', course.congr rfl rfl rfl rfl rfl rfl, rfl, rfl,
      ?_⟩
    rw [Course.tells, ← List.append_assoc, ← reports]

/-- Any calls, one after the other. -/
theorem OnCourse.runs (h : OnCourse c chain p (calls ++ later) v)
    (one : c.config.threads = 1) (caller : c.config.useCaller = true)
    (mappable : Mappable c.config.stackSize usable) (room : c.config.pool * 8 < rowLimit)
    (named : c.names.schedulers.get? name = some c.scheduler)
    (fits : ∀ call ∈ calls, call.Fits c)
    (frames : v.frames = stepFrames label (calls.map (OwnerCall.step name) ++ rest) ++ base)
    (signal : v.signal = .done d) (shows : Shows c v w) :
    ∃ told u w', Passes w w' ∧ Shows c u w' ∧
      OnCourse c chain (calls.foldl (Course.after label) p) later u ∧
      u.frames = stepFrames label rest ++ base ∧ u.reports = v.reports ++ told ∧
      Course.Tells c label p calls told := by
  induction calls generalizing p v w d with
  | nil => exact ⟨[], v, w, .refl w, shows, h, frames, (List.append_nil _).symm, .nil p⟩
  | cons call calls ih =>
    obtain ⟨n, u, w₁, first, shows, course, frames, signal, reports⟩ :=
      h.goes one caller mappable room named (fits call List.mem_cons_self) frames
        signal shows
    obtain ⟨told, u, w', second, shows, course, frames, reports', tells⟩ :=
      ih course (fun call mem => fits call (List.mem_cons_of_mem _ mem)) frames signal shows
    refine ⟨_, u, w', first.trans second, shows, course, frames, ?_, .cons n tells⟩
    rw [reports', reports, List.append_assoc]

/-- Whatever the owner of a scheduler has called before, a stop leaves nothing in the queue as long
as the root fiber has not ended; it reports what it runs, and all that was accepted has been run.
Once a stop has run something, the root fiber has ended: all that was queued since then is still in
the queue when the next stop returns. -/
theorem stops_drain_until_root_ended {before : List OwnerCall} (shows : Shows c v w)
    (h : OnCourse c chain .fresh (before ++ [.stop verb]) v) (one : c.config.threads = 1)
    (caller : c.config.useCaller = true) (mappable : Mappable c.config.stackSize usable)
    (room : c.config.pool * 8 < rowLimit)
    (named : c.names.schedulers.get? name = some c.scheduler)
    (fits : ∀ call ∈ before, call.Fits c)
    (frames : v.frames =
      stepFrames label ((before ++ [OwnerCall.stop verb]).map (OwnerCall.step name) ++ rest) ++
        base)
    (signal : v.signal = .done d) :
    let p := Course.of label before
    ∃ told w' x, Passes w w' ∧ w'.thread.frames = stepFrames label rest ++ base ∧
      w'.reports = w.reports ++ told ∧
      Course.Tells c label .fresh (before ++ [.stop verb]) told ∧
      w'.schedulers.get? c.scheduler = some x ∧ x.shared.active = 0 ∧
      (p.ended = false → x.shared.queue = [] ∧
        ∀ id ∈ (before.flatMap (OwnerCall.items label)).flatMap Item.family,
          Spent w'.fibers id) ∧
      (p.ended = true → x.shared.queue = p.waiting.map Item.entry ∧
        ∀ id ∈ p.ran.flatMap Item.family, Spent w'.fibers id) := by
  intro p
  have fits : ∀ call ∈ before ++ [.stop verb], call.Fits c :=
    List.forall_mem_append.mpr ⟨fits, List.forall_mem_cons.mpr ⟨nofun, nofun⟩⟩
  have h : OnCourse c chain .fresh ((before ++ [.stop verb]) ++ []) v := by
    rw [List.append_nil]
    exact h
  obtain ⟨told, u, w', passes, shows', course, frames, reports, tells⟩ :=
    h.runs one caller mappable room named fits frames signal shows
  rw [List.foldl_append] at course
  have course : OnCourse c chain p.stopped [] u := course
  obtain ⟨x, found, is⟩ := shows'.record
  have queue : x.shared.queue = p.stopped.waiting.map Item.entry := by
    rw [is.shared]
    exact course.queue
  have spent : ∀ id ∈ p.stopped.ran.flatMap Item.family, Spent w'.fibers id := by
    rw [shows'.fibers]
    exact course.spent
  refine ⟨told, w', x, passes, ?_, ?_, tells, found, ?_, fun young => ?_, fun ended => ?_⟩
  · rw [shows'.thread.frames, frames]
  · rw [shows'.reports, reports, shows.reports]
  · rw [is.shared]
    exact course.active
  · rw [Course.stopped, young] at queue spent
    rw [← Course.accepted_of label before]
    exact ⟨queue, spent⟩
  · rw [Course.stopped, ended] at queue spent
    exact ⟨queue, spent⟩

end

/-- A script that starts a scheduler, and twice queues a callback and stops the scheduler. -/
def twiceStoppedScript : Program :=
  ⟨#[[.perform "sched_new" (.scheduler (.new "s" ⟨false, .empty, []⟩ none)),
      .perform "start" (.scheduler (.start "s")),
      .perform "schedule" (.scheduler (.schedule "s" (.callback (.block 1) none))),
      .perform "stop" (.scheduler (.stop "s")),
      .perform "schedule" (.scheduler (.schedule "s" (.callback (.block 2) none))),
      .perform "stop" (.scheduler (.stop "s"))],
    [.perform "log" (.fiber (.log (.text "first")))],
    [.perform "log" (.fiber (.log (.text "second")))]]⟩

/-- What the script calls before its last stop. -/
def callsBeforeStop : List OwnerCall :=
  [.start "start",
    .queue "schedule" false (.callback 1 none) (.notes "log" (.text "first") (.ends none)),
    .stop "stop",
    .queue "schedule" false (.callback 2 none) (.notes "log" (.text "second") (.ends none))]

def ownerFrames : List Frame :=
  [.steps ((callsBeforeStop ++ [OwnerCall.stop "stop"]).map (OwnerCall.step "s")) "main"]

/-- The script when it has made its scheduler, which is the first thing that is reported. -/
def ownerWorld : World :=
  { World.start twiceStoppedScript .frozen .empty .fresh true none "main" with
    fibers := (FiberTable.empty.create (.root 1) 131072 false).1
    saved := Table.empty.put ⟨1⟩ [.fiberStart ⟨1⟩]
    threads := Table.empty.put mainThread (.fresh ownerFrames (some 1))
    schedulers := Table.empty.put 1
      { config := SchedulerConfig.standard
        hooks := .parking .fresh
        shared := .fresh
        root := some ⟨1⟩
        owner := some mainThread
        workers := []
        threadIds := 1
        handles := 1 }
    names := { Names.empty with schedulers := Table.empty.put "s" 1 }
    lastId := 1 }

def ownerSite : Site where
  program := twiceStoppedScript
  names := ownerWorld.names
  timing := .frozen
  scheduler := 1
  config := SchedulerConfig.standard
  root := ⟨1⟩

def ownerView : View where
  fibers := ownerWorld.fibers
  saved := ownerWorld.saved
  frames := ownerFrames
  signal := .done .null
  current := none
  shared := .fresh
  handles := 1
  reports := []

theorem ownerWorld_shows : Shows ownerSite ownerView ownerWorld where
  program := rfl
  names := rfl
  timing := rfl
  aborted := rfl
  running := rfl
  threads := ⟨_, rfl, rfl, rfl, rfl, rfl, rfl, rfl⟩
  record := ⟨_, rfl, rfl, rfl, ⟨_, rfl⟩, rfl, rfl, rfl, rfl⟩
  fibers := rfl
  saved := rfl
  reports := rfl
  mmap := rfl
  mprotect := rfl

theorem ownerView_onCourse :
    OnCourse ownerSite [] .fresh (callsBeforeStop ++ [.stop "stop"]) ownerView where
  queue := rfl
  active := rfl
  fits := nofun
  held := Nat.le_refl 1
  spent := nofun
  unbegun := by
    intro _
    have empty : (FiberTable.empty : FiberTable Body).Settled := ⟨nofun, nofun⟩
    have made : ownerView.fibers.Settled := empty.create (.root 1) 131072 false
    refine ⟨rfl, ⟨made, rfl⟩, List.forall_mem_cons.mpr ⟨?_, nofun⟩, List.nodup_singleton _⟩
    refine ⟨⟨_, rfl, rfl, rfl, Nat.le_refl 1⟩, ?_⟩
    rintro _ ⟨⟩
    rfl
  past := nofun

/-- The second stop returns with one callback in the queue. -/
theorem second_stop_leaves_one :
    ∃ w' x, Passes ownerWorld w' ∧ w'.thread.frames = [] ∧ w'.schedulers.get? 1 = some x ∧
      x.shared.queue.length = 1 := by
  have mappable : Mappable ownerSite.config.stackSize 131072 := ⟨by decide, by decide⟩
  have room : ownerSite.config.pool * 8 < rowLimit := by decide
  have fits : ∀ call ∈ callsBeforeStop, call.Fits ownerSite := by
    have plain : ∀ n verb text, twiceStoppedScript.block n = [.perform verb (.fiber (.log text))] →
        OwnerCall.Fits ownerSite
          (.queue "schedule" false (.callback n none) (.notes verb text (.ends none))) :=
      fun _ _ _ block => List.forall_mem_cons.mpr ⟨⟨⟨trivial, block⟩, nofun⟩, nofun⟩
    refine List.forall_mem_cons.mpr ⟨nofun, List.forall_mem_cons.mpr ⟨plain _ _ _ rfl, ?_⟩⟩
    exact List.forall_mem_cons.mpr ⟨nofun, List.forall_mem_cons.mpr ⟨plain _ _ _ rfl, nofun⟩⟩
  have frames : ownerView.frames =
      stepFrames "main" ((callsBeforeStop ++ [OwnerCall.stop "stop"]).map (OwnerCall.step "s") ++
        []) ++ [] := rfl
  obtain ⟨_, w', x, passes, frames, _, _, found, _, _, left⟩ :=
    stops_drain_until_root_ended ownerWorld_shows ownerView_onCourse rfl rfl mappable room rfl fits
      frames rfl
  refine ⟨w', x, passes, frames, found, ?_⟩
  rw [(left rfl).1]
  rfl

/-- The script from its start to its end. -/
def twiceStoppedEnd : World :=
  (World.start twiceStoppedScript .frozen .empty .fresh false none "main").runUpTo 60

/-- Both stops return, and nothing has run of what was queued between them. -/
theorem second_stop_does_not_drain :
    twiceStoppedEnd.isOver = true ∧
      twiceStoppedEnd.reports.map (fun r => (r.1, r.2.compact)) =
        [("sched_new", "\"ok\""), ("start", "\"ok\""), ("schedule", "1"),
          ("log", "\"first\""), ("stop", "0"), ("schedule", "1"), ("stop", "0")] ∧
      (twiceStoppedEnd.schedulers.get? 1).map (fun x => x.shared.queue.length) = some 1 := by
  refine ⟨?_, ?_, ?_⟩
  · decide +kernel
  · decide +kernel
  · decide +kernel

end Fibers.Script
