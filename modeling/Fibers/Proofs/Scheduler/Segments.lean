import Fibers.Proofs.Scheduler.Cells
import Fibers.Proofs.Scheduler.Scripts

/-!
A segment of a body, from the moment at which its fiber is entered to its next yield or its end. The
fibers that a body has still to queue are known to be as they were made; each thing that the body
does leaves them so, or puts them in the queue.
-/

namespace Fibers.Script

/-- The fiber of a task that has not begun, with a number of handles. -/
def Origin.cells (handles : Nat) : Origin → List Cell
  | .callback .. => []
  | .fiber _ id block label =>
    [⟨id, .init, some (.script block label), handles, some [.fiberStart id]⟩]

mutual

/-- The fibers that a body and the tasks that it queues have still to queue. -/
def Code.forest : Code → List Cell
  | .ends _ => []
  | .notes _ _ next => next.forest
  | .yields _ next => next.forest
  | .queues _ _ _ origin code next => origin.cells 1 ++ (code.forest ++ next.forest)
  | .queuesAll _ _ tasks next => Code.forests tasks ++ next.forest

def Code.forests : List (Origin × Code) → List Cell
  | [] => []
  | (origin, code) :: tasks => origin.cells 1 ++ (code.forest ++ Code.forests tasks)

end

/-- A task runs the block that its code is written as. -/
def Origin.Runs (c : Site) (code : Code) : Origin → Prop
  | .callback block _ => c.program.block block = code.steps
  | .fiber _ _ block _ => c.program.block block = code.steps

/-- A task that is still to be queued has a name besides. -/
structure Origin.Fits (c : Site) (code : Code) (origin : Origin) : Prop where
  named : origin.Named c.names
  runs : origin.Runs c code

mutual

/-- A body and the tasks that it queues can be run at a site: the scheduler is the one that it
names, the tasks run the blocks of the program, and no panic is a violation. -/
def Code.Fits (c : Site) : Code → Prop
  | .ends p => ∀ x, p ≠ some (.violation x)
  | .notes _ _ next => next.Fits c
  | .yields _ next => next.Fits c
  | .queues _ scheduler _ origin code next =>
    c.names.schedulers.get? scheduler = some c.scheduler ∧ origin.Fits c code ∧ code.Fits c ∧
      next.Fits c
  | .queuesAll _ scheduler tasks next =>
    c.names.schedulers.get? scheduler = some c.scheduler ∧ Code.AllFit c tasks ∧ next.Fits c

def Code.AllFit (c : Site) : List (Origin × Code) → Prop
  | [] => True
  | (origin, code) :: tasks => (origin.Fits c code ∧ code.Fits c) ∧ Code.AllFit c tasks

end

theorem Code.AllFit.mem {c : Site} {tasks : List (Origin × Code)} (h : Code.AllFit c tasks)
    {t : Origin × Code} (mem : t ∈ tasks) : t.1.Fits c t.2 ∧ t.2.Fits c := by
  induction tasks with
  | nil => cases mem
  | cons u tasks ih =>
    rcases List.mem_cons.mp mem with rfl | mem
    · exact h.1
    · exact ih h.2 mem

/-- The handles of a fiber that the run loop has: a name may hold it too. -/
def holders (named : Bool) : Nat := if named then 2 else 1

/-- An entry of the queue with the code of its body. -/
inductive Item where
  /-- A task that has not begun; somebody may hold its fiber besides the queue. -/
  | fresh (origin : Origin) (named : Bool) (label : String) (pinned : Bool) (code : Code)
  /-- A fiber that yielded; somebody may hold it besides the queue. -/
  | suspended (id : FiberId) (named : Bool) (label verb : String) (code : Code)

namespace Item

def entry : Item → QueueEntry Body
  | .fresh origin _ label pinned _ => origin.entry label pinned
  | .suspended id _ _ _ _ => ⟨.fiber id, none⟩

def job : Item → Job
  | .fresh _ _ _ _ code => ⟨none, code⟩
  | .suspended _ _ _ verb code => ⟨some verb, code⟩

/-- The frames of a fiber that yielded. -/
def frames (id : FiberId) (label verb : String) (code : Code) : List Frame :=
  .report verb label :: (stepFrames label code.steps ++ [.fiberBody id])

/-- The fiber of an entry, and those that are still to be queued. -/
def stock : Item → List Cell
  | .fresh origin named _ _ code => origin.cells (holders named) ++ code.forest
  | .suspended id named label verb code =>
    ⟨id, .ready, none, holders named, some (frames id label verb code)⟩ :: code.forest

def Fits (c : Site) : Item → Prop
  | .fresh origin _ _ _ code => origin.Runs c code ∧ code.Fits c
  | .suspended _ _ _ _ code => code.Fits c

end Item

/-- What is queued of a body up to its next yield or its end. -/
def Code.items (label : String) : Code → List Item
  | .ends _ => []
  | .notes _ _ next => next.items label
  | .yields _ _ => []
  | .queues _ _ pinned origin code next =>
    .fresh origin true label pinned code :: next.items label
  | .queuesAll _ _ tasks next =>
    tasks.map (fun t => .fresh t.1 true label false t.2) ++ next.items label

/-- How a segment ends. -/
inductive Halt where
  | yields (verb : String) (rest : Code)
  | ends (p : Option Panic)

namespace Halt

/-- The state in which the fiber leaves. -/
def state : Halt → FiberState
  | .yields .. => .ready
  | .ends none => .term
  | .ends (some _) => .except

/-- The frames that are put away. -/
def frames (id : FiberId) (label : String) : Halt → List Frame
  | .yields verb rest => Item.frames id label verb rest
  | .ends _ => [.fiberEnd]

/-- The fibers that are still to be queued by the rest. -/
def forest : Halt → List Cell
  | .yields _ rest => rest.forest
  | .ends _ => []

def left : Halt → List Job
  | .yields verb rest => [⟨some verb, rest⟩]
  | .ends _ => []

end Halt

def Code.halt : Code → Halt
  | .ends p => .ends p
  | .notes _ _ next => next.halt
  | .yields verb next => .yields verb next
  | .queues _ _ _ _ _ next => next.halt
  | .queuesAll _ _ _ next => next.halt

theorem Code.segment_queued (label : String) (count : Nat → Datum) :
    ∀ (code : Code) (waiting : Nat),
    (code.segment count waiting).queued = (code.items label).map Item.job
  | .ends _, _ => rfl
  | .notes _ _ next, waiting => next.segment_queued label count waiting
  | .yields _ _, _ => rfl
  | .queues _ _ _ _ code next, waiting =>
    congrArg (_ :: ·) (next.segment_queued label count (waiting + 1))
  | .queuesAll _ _ tasks next, waiting => by
    simp only [segment, items, List.map_append, List.map_map,
      next.segment_queued label count (waiting + tasks.length)]
    rfl

theorem Code.segment_left (count : Nat → Datum) : ∀ (code : Code) (waiting : Nat),
    (code.segment count waiting).left = code.halt.left
  | .ends _, _ => rfl
  | .notes _ _ next, waiting => next.segment_left count waiting
  | .yields _ _, _ => rfl
  | .queues _ _ _ _ _ next, waiting => next.segment_left count (waiting + 1)
  | .queuesAll _ _ tasks next, waiting => next.segment_left count (waiting + tasks.length)

section

variable {c : Site} {v v' : View} {a id : FiberId} {chain : List FiberId} {cells : List Cell}
  {label : String} {n : Nat} {outer : List Frame} {code : Code} {d : Datum}

/-- A floor concerns the fibers and the running one alone. -/
theorem Floor.congr (h : Floor v a chain cells) (fibers : v'.fibers = v.fibers)
    (saved : v'.saved = v.saved) (current : v'.current = v.current) :
    Floor v' a chain cells where
  current := current.trans h.current
  order := fibers ▸ h.order
  holds x mem := (h.holds x mem).congr (by rw [fibers]) (by rw [saved])
  distinct := h.distinct

/-- Queueing a task takes a handle of its fiber, if it has one of its own. -/
theorem Floor.retained (origin : Origin) (h : Floor v a chain (origin.cells n ++ cells)) :
    Floor { v with fibers := origin.retain v.fibers } a chain (origin.cells (n + 1) ++ cells) := by
  cases origin with
  | callback block own => exact h
  | fiber name id block label => exact h.retain

/-- The entries of some tasks. -/
def Item.ofTasks (label : String) (tasks : List (Origin × Code)) : List Item :=
  tasks.map fun t => .fresh t.1 true label false t.2

/-- What is known of the fibers of tasks stays known when the tasks are queued, with a handle more,
if that is so of each of them. -/
theorem retainTasks_known {motive : FiberTable Body → List Cell → Prop}
    (perm : ∀ t xs ys, motive t xs → xs.Perm ys → motive t ys)
    (retained : ∀ t origin xs, motive t (Origin.cells 1 origin ++ xs) →
      motive (origin.retain t) (origin.cells 2 ++ xs))
    (label : String) (tasks : List (Origin × Code)) (t : FiberTable Body) (cells : List Cell)
    (h : motive t (Code.forests tasks ++ cells)) :
    motive (retainTasks tasks t) ((Item.ofTasks label tasks).flatMap Item.stock ++ cells) := by
  induction tasks generalizing t cells with
  | nil => exact h
  | cons task tasks ih =>
    obtain ⟨origin, code⟩ := task
    simp only [Code.forests, List.append_assoc] at h
    have first := retained t origin _ h
    have front : motive (origin.retain t)
        (Code.forests tasks ++ (origin.cells 2 ++ (code.forest ++ cells))) := by
      refine perm _ _ _ first (.trans ?_ (List.perm_append_comm_assoc ..))
      exact (List.perm_append_comm_assoc ..).append_left _
    refine perm _ _ _ (ih _ _ front) ?_
    simp only [Item.ofTasks, List.map_cons, List.flatMap_cons, Item.stock, List.append_assoc]
    refine (List.perm_append_comm_assoc ..).trans ?_
    exact (List.perm_append_comm_assoc ..).append_left _

theorem Floor.retainedAll (label : String) (tasks : List (Origin × Code))
    (h : Floor v a chain (Code.forests tasks ++ cells)) :
    Floor { v with fibers := retainTasks tasks v.fibers } a chain
      ((Item.ofTasks label tasks).flatMap Item.stock ++ cells) :=
  retainTasks_known (motive := fun t xs => Floor { v with fibers := t } a chain xs)
    (fun _ _ _ h p => h.perm p) (fun _ origin _ h => h.retained origin) label tasks v.fibers cells h

theorem Code.forest_queues (verb scheduler : String) (pinned : Bool) (origin : Origin)
    (code next : Code) :
    (Code.queues verb scheduler pinned origin code next).forest =
      Code.forests [(origin, code)] ++ next.forest := by
  simp only [Code.forest, Code.forests, List.append_nil, List.append_assoc]

/-- Tasks that are queued are no longer among those that are still to be queued. -/
theorem Floor.queued (label : String) (tasks : List (Origin × Code)) {x y : Cell}
    {rest : List Cell} (h : Floor v a chain (x :: y :: (Code.forests tasks ++ rest ++ cells))) :
    Floor { v with fibers := retainTasks tasks v.fibers } a chain
      (x :: y :: (rest ++ ((Item.ofTasks label tasks).flatMap Item.stock ++ cells))) := by
  rw [List.append_assoc] at h
  have front : Floor v a chain (Code.forests tasks ++ ([x, y] ++ (rest ++ cells))) :=
    h.perm (List.perm_append_comm_assoc [x, y] _ _)
  refine (front.retainedAll label tasks).perm ((List.perm_append_comm_assoc ..).trans ?_)
  exact (List.perm_append_comm_assoc ..).append_left [x, y]

/-- The fiber `id` runs and has the rest of a body to do; the run loop waits for it. -/
structure Inside (c : Site) (id : FiberId) (label : String) (n : Nat) (outer : List Frame)
    (chain : List FiberId) (code : Code) (cells : List Cell) (v : View) : Prop where
  floor : Floor v id (c.root :: chain)
    (⟨id, .exec, none, n, none⟩ :: ⟨c.root, .hold, none, 2, some outer⟩ :: (code.forest ++ cells))
  frames : v.frames = stepFrames label code.steps ++ [.fiberBody id]
  signal : ∃ d, v.signal = .done d

/-- The fiber has given control back to the run loop. -/
structure Halted (c : Site) (id : FiberId) (label : String) (n : Nat) (outer : List Frame)
    (chain : List FiberId) (halt : Halt) (cells : List Cell) (v : View) : Prop where
  floor : Floor v c.root chain
    (⟨c.root, .exec, none, 2, none⟩ :: ⟨id, halt.state, none, n, some (halt.frames id label)⟩ ::
      (halt.forest ++ cells))
  frames : v.frames = outer
  signal : v.signal = .left halt.state

/-- What a fiber does up to its next yield or its end. -/
structure Walked (c : Site) (id : FiberId) (label : String) (n : Nat) (outer : List Frame)
    (chain : List FiberId) (code : Code) (cells : List Cell) (v v' : View) : Prop where
  runs : Runs c v v'
  halted : Halted c id label n outer chain code.halt
    ((code.items label).flatMap Item.stock ++ cells) v'
  shared : v'.shared =
    { v.shared with queue := v.shared.queue ++ (code.items label).map Item.entry }
  handles : v'.handles = v.handles
  reports : v'.reports = v.reports ++ (code.segment c.count v.shared.queue.length).reports

theorem Halted.perm {halt : Halt} {cells' : List Cell}
    (h : Halted c id label n outer chain halt cells v) (p : cells.Perm cells') :
    Halted c id label n outer chain halt cells' v where
  floor := h.floor.perm (((p.append_left _).cons _).cons _)
  frames := h.frames
  signal := h.signal

/-- The first thing that a body does, before the rest. -/
theorem Walked.after {u : View} {next : Code} {added : List Item} {r : String × Datum}
    (rest : Walked c id label n outer chain next (added.flatMap Item.stock ++ cells) u v')
    (first : Runs c v u) (halt : code.halt = next.halt)
    (items : code.items label = added ++ next.items label)
    (shared : u.shared =
      { v.shared with queue := v.shared.queue ++ added.map Item.entry })
    (handles : u.handles = v.handles) (reports : u.reports = v.reports ++ [r])
    (segment : (code.segment c.count v.shared.queue.length).reports =
      r :: (next.segment c.count (v.shared.queue.length + added.length)).reports) :
    Walked c id label n outer chain code cells v v' where
  runs := first.trans rest.runs
  halted := by
    rw [halt, items, List.flatMap_append, List.append_assoc]
    exact rest.halted.perm (List.perm_append_comm_assoc ..)
  shared := by
    rw [rest.shared, shared, items, List.map_append, List.append_assoc]
  handles := rest.handles.trans handles
  reports := by
    have length : u.shared.queue.length = v.shared.queue.length + added.length := by
      rw [shared, List.length_append, List.length_map]
    rw [rest.reports, reports, length, segment, List.append_assoc]
    rfl

/-- A step of a body, whose action queues some tasks. -/
theorem Inside.step {next : Code} (added : List Item) {verb : String} {action : Action}
    {res : Datum} {fibers : FiberTable Body}
    (h : Inside c id label n outer chain code cells v)
    (steps : code.steps = .perform verb action :: next.steps)
    (does : ∀ u : View, u.fibers = v.fibers → u.shared = v.shared →
      Does c u (perform label action) (.done res) (u.queued fibers (added.map Item.entry)))
    (floor : Floor { v with fibers := fibers } id (c.root :: chain)
      (⟨id, .exec, none, n, none⟩ :: ⟨c.root, .hold, none, 2, some outer⟩ ::
        (next.forest ++ (added.flatMap Item.stock ++ cells)))) :
    ∃ u, Runs c v u ∧
      Inside c id label n outer chain next (added.flatMap Item.stock ++ cells) u ∧
      u.shared = { v.shared with queue := v.shared.queue ++ added.map Item.entry } ∧
      u.handles = v.handles ∧ u.reports = v.reports ++ [(verb, res)] := by
  obtain ⟨d, signal⟩ := h.signal
  have frames : v.frames =
      .steps (.perform verb action :: next.steps) label :: [.fiberBody id] := by
    rw [h.frames, steps]
    rfl
  exact ⟨_, perform_runs (v.queued fibers (added.map Item.entry)) frames signal (does _ rfl rfl),
    ⟨floor.congr rfl rfl rfl, rfl, _, rfl⟩, rfl, rfl, rfl⟩

theorem View.queued_nil (v : View) : v.queued v.fibers [] = v := by
  rw [View.queued, List.append_nil]

/-- A fiber yields. -/
theorem Inside.yields_runs {verb : String} {next : Code}
    (h : Inside c id label n outer chain (.yields verb next) cells v) :
    ∃ v', Runs c v v' ∧ Halted c id label n outer chain (.yields verb next) cells v' ∧
      v'.shared = v.shared ∧ v'.handles = v.handles ∧ v'.reports = v.reports := by
  obtain ⟨d, signal⟩ := h.signal
  let u : View := { v with frames := Item.frames id label verb next }
  have floor : Floor u id (c.root :: chain) _ := h.floor.congr rfl rfl rfl
  obtain ⟨t, -, yields, told, floor, frames⟩ := floor.handed .ready nofun
  have does : Does c { v with frames := [.fiberBody id] }
      (startSteps label (.perform verb (.fiber .yieldReady) :: next.steps)) (.left .ready)
      (u.followed t) := by
    have gone := yieldTo_does (c := c) yields
    rw [told] at gone
    exact startSteps_does ((push_does _).bind gone)
  let v' : View := { u.followed t with signal := .left .ready }
  have goes : proceedWith (.steps (.perform verb (.fiber .yieldReady) :: next.steps) label)
      v.signal = startSteps label (.perform verb (.fiber .yieldReady) :: next.steps) := by
    rw [signal]
    rfl
  exact ⟨v', .of_act h.frames goes does, ⟨floor.congr rfl rfl rfl, frames, rfl⟩, rfl, rfl, rfl⟩

/-- A fiber `b` returns from its body, and `a` goes on. -/
theorem finish_runs {b : FiberId} {ea eb : Option Body} {na nb : Nat} {fb : Option (List Frame)}
    {fs : List Frame}
    (h : Floor v b (a :: chain) (⟨b, .exec, eb, nb, fb⟩ :: ⟨a, .hold, ea, na, some fs⟩ :: cells))
    (frames : v.frames = [.fiberBody b]) (signal : v.signal = .done d) :
    ∃ v', Runs c v v' ∧
      Floor v' a chain
        (⟨a, .exec, ea, na, none⟩ :: ⟨b, .term, eb, nb, some [.fiberEnd]⟩ :: cells) ∧
      v'.frames = fs ∧ v'.signal = .left .term ∧ v'.shared = v.shared ∧ v'.handles = v.handles ∧
      v'.reports = v.reports := by
  let u : View := { v with frames := [.fiberEnd] }
  have floor : Floor u b (a :: chain) _ := h.congr rfl rfl rfl
  obtain ⟨t, hands, -, told, floor, entered⟩ := floor.handed .term nofun
  have does : Does c { v with frames := [] } (finish b .term) (.left .term) (u.followed t) := by
    have gone := finish_does (c := c) (v := { v with frames := [] }) hands
    rwa [told] at gone
  have goes : proceedWith (.fiberBody b) v.signal = finish b .term := by
    rw [signal]
    rfl
  exact ⟨{ u.followed t with signal := .left .term }, .of_act frames goes does,
    floor.congr rfl rfl rfl, entered, rfl, rfl, rfl, rfl⟩

/-- A fiber comes to the end of its body. -/
theorem Inside.ends_runs {p : Option Panic} (lawful : ∀ x, p ≠ some (.violation x))
    (h : Inside c id label n outer chain (.ends p) cells v) :
    ∃ v', Runs c v v' ∧ Halted c id label n outer chain (.ends p) cells v' ∧
      v'.shared = v.shared ∧ v'.handles = v.handles ∧ v'.reports = v.reports := by
  obtain ⟨d, signal⟩ := h.signal
  cases p with
  | none =>
    obtain ⟨v', runs, floor, frames, left, shared, handles, reports⟩ :=
      finish_runs h.floor h.frames signal
    exact ⟨v', runs, ⟨floor, frames, left⟩, shared, handles, reports⟩
  | some p =>
    let u : View := { v with frames := [.fiberEnd] }
    have floor : Floor u id (c.root :: chain) _ := h.floor.congr rfl rfl rfl
    obtain ⟨t, hands, -, told, floor, frames⟩ := floor.handed .except nofun
    let raised : View := { v with frames := [.fiberBody id], signal := .raised p }
    have raises : Runs c v raised := by
      refine .of_perform h.frames fun w shows => ⟨w, ?_, shows⟩
      rw [signal]
      rfl
    have gone : Does c { raised with frames := [] } (finishPanicked id p) (.left .except)
        { u.followed t with signal := .raised p } := by
      have gone := finishPanicked_does (c := c) (v := { raised with frames := [] })
        (fun x e => lawful x (congrArg some e)) hands
      rwa [told] at gone
    exact ⟨{ u.followed t with signal := .left .except }, raises.trans (.of_does rfl gone),
      ⟨floor.congr rfl rfl rfl, frames, rfl⟩, rfl, rfl, rfl⟩

/-- What a fiber does up to its next yield or its end, by induction on the body. -/
theorem Inside.walk (one : c.config.threads = 1) : ∀ (code : Code) {cells : List Cell} {v : View},
    Inside c id label n outer chain code cells v → code.Fits c →
      ∃ v', Walked c id label n outer chain code cells v v'
  | .ends p, cells, v, h, lawful => by
    obtain ⟨v', runs, halted, shared, handles, reports⟩ := h.ends_runs lawful
    refine ⟨v', runs, halted, ?_, handles, ?_⟩
    · rw [shared, Code.items, List.map_nil, List.append_nil]
    · rw [reports, Code.segment, List.append_nil]
  | .yields verb next, cells, v, h, _ => by
    obtain ⟨v', runs, halted, shared, handles, reports⟩ := h.yields_runs
    refine ⟨v', runs, halted, ?_, handles, ?_⟩
    · rw [shared, Code.items, List.map_nil, List.append_nil]
    · rw [reports, Code.segment, List.append_nil]
  | .notes verb d next, cells, v, h, fits => by
    have does : ∀ u : View, u.fibers = v.fibers → u.shared = v.shared →
        Does c u (perform label (.fiber (.log d))) (.done d) (u.queued v.fibers []) := by
      intro u fibers _
      rw [← fibers, View.queued_nil]
      exact .pure _
    obtain ⟨u, first, inside, shared, handles, reports⟩ :=
      h.step [] rfl does (h.floor.congr rfl rfl rfl)
    obtain ⟨v', rest⟩ := inside.walk one next fits
    exact ⟨v', rest.after first rfl rfl shared handles reports rfl⟩
  | .queues verb scheduler pinned origin code next, cells, v, h, fits => by
    obtain ⟨named, known, _, fits⟩ := fits
    have does : ∀ u : View, u.fibers = v.fibers → u.shared = v.shared →
        Does c u (perform label (.scheduler (origin.queueing scheduler pinned)))
          (.done (c.count (v.shared.queue.length + 1)))
          (u.queued (origin.retain v.fibers) [origin.entry label pinned]) := by
      intro u fibers shared
      rw [← fibers, ← shared]
      exact queueing_does named one pinned known.named label
    have floor := h.floor
    rw [Code.forest_queues] at floor
    obtain ⟨u, first, inside, shared, handles, reports⟩ :=
      h.step [.fresh origin true label pinned code] rfl does (floor.queued label [(origin, code)])
    obtain ⟨v', rest⟩ := inside.walk one next fits
    exact ⟨v', rest.after first rfl rfl shared handles reports rfl⟩
  | .queuesAll verb scheduler tasks next, cells, v, h, fits => by
    obtain ⟨named, known, fits⟩ := fits
    have does : ∀ u : View, u.fibers = v.fibers → u.shared = v.shared →
        Does c u
          (perform label (.scheduler (.scheduleAll scheduler (tasks.map fun t => t.1.spec))))
          (.done (c.count (v.shared.queue.length + tasks.length)))
          (u.queued (retainTasks tasks v.fibers) ((Item.ofTasks label tasks).map Item.entry)) := by
      intro u fibers shared
      rw [← fibers, ← shared, Item.ofTasks, List.map_map]
      exact queueingAll_does named (fun t mem => (known.mem mem).1.named) label
    obtain ⟨u, first, inside, shared, handles, reports⟩ :=
      h.step (Item.ofTasks label tasks) rfl does (h.floor.queued label tasks)
    obtain ⟨v', rest⟩ := inside.walk one next fits
    refine ⟨v', rest.after first rfl rfl shared handles reports ?_⟩
    rw [Item.ofTasks, List.length_map]
    rfl

end

end Fibers.Script
