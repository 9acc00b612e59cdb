import Fibers.Proofs.Scheduler.Segments

/-!
A turn of the run loop. The first entry of the queue is taken and run to its next yield or its end;
then the fiber that it ran on goes to the end of the queue, is kept for another callback, or is let
go of.
-/

namespace Fibers.Script

variable {c : Site} {v : View} {a id : FiberId} {chain : List FiberId} {cells : List Cell}
  {label : String} {n : Nat} {outer : List Frame} {code : Code} {d : Datum}

theorem startBlock_does (block : Nat) (label : String) :
    Does c v (startBlock block label) (.done .null)
      { v with frames := .steps (c.program.block block) label :: v.frames } := by
  refine Does.get fun w shows => ?_
  rw [shows.program]
  exact (push_does _).bind (.pure _)

/-- A fiber is entered for the first time, its body being taken out. -/
theorem startFiber_does {body : Body} {s : Signal} {u : View}
    (entry : (v.fibers.takeEntry id).2 = some body)
    (h : Does c
      { v with fibers := (v.fibers.takeEntry id).1, frames := .fiberBody id :: v.frames }
      (startBody body) s u) : Does c v (startFiber id) s u := by
  have pair : v.fibers.takeEntry id = ((v.fibers.takeEntry id).1, some body) := Prod.ext rfl entry
  refine Does.get fun w shows => ?_
  rw [shows.fibers, pair]
  have taken : Does c v (modify fun w => { w with fibers := (v.fibers.takeEntry id).1 }) ()
      { v with fibers := (v.fibers.takeEntry id).1 } :=
    .modify fun _ shows => { shows with fibers := rfl }
  exact taken.bind ((push_does _).bind h)

/-- A fiber is entered for the first time and comes to the first step of its body. -/
theorem begins_runs {block : Nat}
    (h : Floor v id (c.root :: chain)
      (⟨id, .exec, some (.script block label), n, none⟩ ::
        ⟨c.root, .hold, none, 2, some outer⟩ :: (code.forest ++ cells)))
    (frames : v.frames = [.fiberStart id]) (signal : v.signal = .done d)
    (runs : c.program.block block = code.steps) :
    ∃ u, Runs c v u ∧ Inside c id label n outer chain code cells u ∧ u.shared = v.shared ∧
      u.handles = v.handles ∧ u.reports = v.reports := by
  obtain ⟨entry, floor⟩ := h.begun
  let begun : View :=
    { v with
      fibers := (v.fibers.takeEntry id).1
      frames := [.steps code.steps label, .fiberBody id]
      signal := .done .null }
  have does : Does c { v with frames := [] } (startFiber id) (.done .null)
      { begun with signal := v.signal } := by
    have started := startBlock_does (c := c) (v := { begun with
      frames := [.fiberBody id], signal := v.signal }) block label
    rw [runs] at started
    exact startFiber_does (v := { v with frames := [] }) entry started
  have goes : proceedWith (.fiberStart id) v.signal = startFiber id := by
    rw [signal]
    rfl
  have first : Runs c v begun := .of_act frames goes does
  cases steps : code.steps with
  | nil =>
    have now : begun.frames = .steps [] label :: [.fiberBody id] := by rw [← steps]
    refine ⟨_, first.trans (steps_nil_runs now rfl), ⟨floor.congr rfl rfl rfl, ?_, _, rfl⟩, rfl,
      rfl, rfl⟩
    rw [steps]
    rfl
  | cons step rest =>
    refine ⟨begun, first, ⟨floor.congr rfl rfl rfl, ?_, _, rfl⟩, rfl, rfl, rfl⟩
    change [Frame.steps code.steps label, .fiberBody id] = _
    rw [steps]
    rfl

/-- A fiber that yielded is entered again, and the yield is over. -/
theorem returns_runs {verb : String}
    (h : Floor v id (c.root :: chain)
      (⟨id, .exec, none, n, none⟩ :: ⟨c.root, .hold, none, 2, some outer⟩ ::
        (code.forest ++ cells)))
    (frames : v.frames = Item.frames id label verb code) (signal : v.signal = .done .null) :
    ∃ u, Runs c v u ∧ Inside c id label n outer chain code cells u ∧ u.shared = v.shared ∧
      u.handles = v.handles ∧ u.reports = v.reports ++ [(verb, .null)] := by
  have goes : proceedWith (.report verb label) v.signal =
      (do report verb label .null; return .done .null) := by
    rw [signal]
    rfl
  exact ⟨{ v with
      frames := stepFrames label code.steps ++ [.fiberBody id]
      signal := .done .null
      reports := v.reports ++ [(verb, .null)] },
    .of_act frames goes ((report_does _ _ _).bind (.pure _)),
    ⟨h.congr rfl rfl rfl, rfl, _, rfl⟩, rfl, rfl, rfl⟩

/-- The run loop of the worker. -/
def Site.loop (c : Site) (idle : FiberId) (pool : List FiberId) : Loop :=
  ⟨c.scheduler, 0, idle, pool⟩

variable {idle : FiberId} {pool : List FiberId}

theorem requeue_does :
    Does c v (endTurn (c.loop idle pool) id .requeue) (.done .null)
      { v with
        frames := .loop (c.loop idle pool) :: v.frames
        shared := { v.shared with
          queue := v.shared.queue ++ [⟨.fiber id, none⟩]
          active := v.shared.active - 1 } } :=
  (enqueue_does _).bind (settle_does.bind ((push_does _).bind (.pure _)))

theorem recycle_does :
    Does c v (endTurn (c.loop idle pool) id .recycle) (.done .null)
      { v with
        frames := .loop (c.loop idle (id :: pool)) :: v.frames
        shared := v.shared.settle } :=
  settle_does.bind ((push_does _).bind (.pure _))

/-- To let go of a fiber concerns the fibers and their stacks alone. -/
theorem View.released_eq (id : FiberId) (v v' : View) (fibers : v'.fibers = v.fibers)
    (saved : v'.saved = v.saved) :
    v'.released id =
      { v' with fibers := (v.released id).fibers, saved := (v.released id).saved } := by
  unfold View.released
  rw [fibers]
  cases v.fibers.get? id with
  | none =>
    dsimp only
    rw [← fibers, ← saved]
  | some r =>
    dsimp only
    split
    · rw [← saved, ← fibers]
    · rw [View.withoutFiber, View.withoutFiber, fibers, saved]

theorem dismiss_does (held : ∀ r, v.fibers.get? id = some r → r.entry = none) :
    Does c v (endTurn (c.loop idle pool) id .dismiss) (.done .null)
      { v with
        fibers := (v.released id).fibers
        saved := (v.released id).saved
        frames := .loop (c.loop idle pool) :: v.frames
        shared := v.shared.settle } := by
  let settled : View := { v with shared := v.shared.settle }
  have free : Does c settled (release [.fiber id]) () (settled.released id) :=
    release_fibers_does [id] (by simpa using held)
  rw [View.released_eq id v settled rfl rfl] at free
  exact settle_does.bind (free.bind ((push_does _).bind (.pure _)))

/-- The fiber `id` was entered from the run loop, which goes on with `front`. -/
structure Entered (c : Site) (chain : List FiberId) (front : Frame) (base : List Frame)
    (id : FiberId) (entry : Option Body) (n : Nat) (frames : List Frame) (cells : List Cell)
    (shared : Shared Body) (v u : View) : Prop where
  runs : Runs c v u
  floor : Floor u id (c.root :: chain)
    (⟨id, .exec, entry, n, none⟩ :: ⟨c.root, .hold, none, 2, some (front :: base)⟩ :: cells)
  frames : u.frames = frames
  signal : u.signal = .done .null
  shared : u.shared = shared
  handles : u.handles = v.handles
  reports : u.reports = v.reports

/-- What the workers share after an entry was taken. -/
def View.taking (v : View) (queue : List (QueueEntry Body)) : Shared Body :=
  { v.shared with queue := queue, active := v.shared.active + 1 }

variable {base fs : List Frame} {queue : List (QueueEntry Body)} {worker : Option Nat}
  {entry : Option Body} {st : FiberState} {w : View}

/-- A fiber is entered by the run loop after `v` has become `w`. -/
theorem Entered.of_resume {front : Frame}
    (frames : v.frames = .loop (c.loop idle pool) :: base)
    (does : ∀ {s u}, Does c { w with frames := front :: base } (resume id) s u →
      Does c { v with frames := base } (turn (c.loop idle pool)) s u)
    (signal : v.signal = .done d) (same : w.signal = v.signal)
    (floor : Floor w c.root chain
      (⟨c.root, .exec, none, 2, none⟩ :: ⟨id, st, entry, n, some fs⟩ :: cells))
    (rests : st = .init ∨ st = .ready) (handles : w.handles = v.handles)
    (reports : w.reports = v.reports) :
    ∃ u, Entered c chain front base id entry n fs cells w.shared v u := by
  let pushed : View := { w with frames := front :: base }
  have floor : Floor pushed c.root chain _ := floor.congr rfl rfl rfl
  obtain ⟨t, ok, told, floor, entered⟩ := floor.entered rests
  have gone := resume_does (c := c) ok
  rw [told] at gone
  have goes : proceedWith (.loop (c.loop idle pool)) v.signal = turn (c.loop idle pool) := by
    rw [signal]
    rfl
  let u : View := { pushed.followed t with signal := .done .null }
  have back : { u with signal := v.signal } = pushed.followed t := by
    rw [← same]
    rfl
  refine ⟨u, .of_act frames goes (back ▸ does gone), ?_, entered, rfl, rfl, handles, reports⟩
  exact (floor.perm (List.Perm.swap ..)).congr rfl rfl rfl

/-- Whether worker 0 may take an entry that names it or none. -/
theorem eligible_of_pin {running : FiberId → Bool} {task : Task Body}
    (pin : worker = none ∨ worker = some 0) (idle : ∀ id, task = .fiber id → running id = false) :
    TaskQueue.eligible running 0 ⟨task, worker⟩ = true := by
  unfold TaskQueue.eligible
  rcases pin with rfl | rfl <;> cases task <;> simp [idle]

theorem Cell.Holds.state {x : Cell} (h : x.Holds v) : v.fibers.state x.id = x.state := by
  obtain ⟨⟨r, found, state, _⟩, _⟩ := h
  rw [FiberTable.state, found]
  exact state

/-- A turn that takes a fiber which has not begun or is ready. -/
theorem turnFiber_runs (frames : v.frames = .loop (c.loop idle pool) :: base)
    (signal : v.signal = .done d) (pin : worker = none ∨ worker = some 0)
    (first : v.shared.queue = ⟨.fiber id, worker⟩ :: queue)
    (floor : Floor v c.root chain
      (⟨c.root, .exec, none, 2, none⟩ :: ⟨id, st, entry, n, some fs⟩ :: cells))
    (rests : st = .init ∨ st = .ready) :
    ∃ u, Entered c chain (.loopFiber (c.loop idle pool) id) base id entry n fs cells
      (v.taking queue) v u := by
  have state : v.fibers.state id = st := (floor.holds ⟨id, st, entry, n, some fs⟩ (by simp)).state
  have eligible : TaskQueue.eligible (fun id => v.fibers.state id == .exec) 0
      ⟨Task.fiber (β := Body) id, worker⟩ = true := by
    refine eligible_of_pin pin fun j same => ?_
    obtain rfl := Task.fiber.inj same
    rw [state]
    rcases rests with rfl | rfl <;> rfl
  have resumable : (v.fibers.state id).isResumable = true := by
    rw [state]
    rcases rests with rfl | rfl <;> rfl
  let w : View := { v with shared := v.taking queue }
  refine Entered.of_resume (w := w) frames (fun does => ?_) signal rfl (floor.congr rfl rfl rfl)
    rests rfl rfl
  refine (takeNext_does (c := c) (v := { v with frames := base }) first eligible).bind
    (Does.get fun x shows => ?_)
  rw [shows.fibers, if_pos resumable]
  exact (push_does _).bind does

/-- A turn that takes a callback and runs it on a fiber that was kept. -/
theorem turnCallback_kept_runs {block : Nat} {n : Nat} {kept : Option (List Frame)}
    (frames : v.frames = .loop (c.loop idle (id :: pool)) :: base) (signal : v.signal = .done d)
    (pin : worker = none ∨ worker = some 0)
    (first : v.shared.queue = ⟨.callback (.script block label), worker⟩ :: queue)
    (floor : Floor v c.root chain
      (⟨c.root, .exec, none, 2, none⟩ :: ⟨id, st, none, n, kept⟩ :: cells))
    (ended : st.isTerminal = true) :
    ∃ u, Entered c chain (.loopCallback (c.loop idle pool) id) base id
      (some (.script block label)) n [.fiberStart id] cells (v.taking queue) v u := by
  have eligible : TaskQueue.eligible (fun id => v.fibers.state id == .exec) 0
      ⟨Task.callback (Body.script block label), worker⟩ = true := eligible_of_pin pin nofun
  have front := floor.perm (List.Perm.swap ..)
  obtain ⟨ok, restarted⟩ := front.restarted ended (.script block label)
  obtain ⟨⟨r, found, _, none, _⟩, _⟩ := floor.holds ⟨id, st, none, n, kept⟩ (by simp)
  let w : View :=
    { v with
      fibers := v.fibers.restarted id (.script block label)
      saved := v.saved.put id [.fiberStart id]
      shared := v.taking queue }
  refine Entered.of_resume (w := w) frames (fun does => ?_) signal rfl
    ((restarted.perm (List.Perm.swap ..)).congr rfl rfl rfl) (.inl rfl) rfl rfl
  let pushed : View :=
    { v with
      frames := .loopCallback (c.loop idle pool) id :: base
      shared := v.taking queue }
  have reset := resetFiber_does (c := c) (v := pushed) ok fun q b found' some => by
    have same : q = r := Option.some.inj (found'.symm.trans found)
    rw [same, none] at some
    cases some
  exact (takeNext_does (c := c) (v := { v with frames := base }) first eligible).bind
    ((push_does _).bind (reset.bind does))

/-- A turn that takes a callback and makes a fiber for it. -/
theorem turnCallback_fresh_runs {block usable : Nat} (mappable : Mappable c.config.stackSize usable)
    (frames : v.frames = .loop (c.loop idle []) :: base) (signal : v.signal = .done d)
    (pin : worker = none ∨ worker = some 0)
    (first : v.shared.queue = ⟨.callback (.script block label), worker⟩ :: queue)
    (floor : Floor v c.root chain (⟨c.root, .exec, none, 2, none⟩ :: cells)) :
    ∃ id u, Entered c chain (.loopCallback (c.loop idle []) id) base id
      (some (.script block label)) 1 [.fiberStart id] cells (v.taking queue) v u := by
  have eligible : TaskQueue.eligible (fun id => v.fibers.state id == .exec) 0
      ⟨Task.callback (Body.script block label), worker⟩ = true := eligible_of_pin pin nofun
  have created := floor.created (.script block label) usable true
  let w : View :=
    { v.withFiber (.script block label) usable true with
      shared := v.taking queue }
  refine ⟨⟨v.fibers.lastId + 1⟩, Entered.of_resume (w := w) frames (fun does => ?_) signal rfl
    ((created.perm (List.Perm.swap ..)).congr rfl rfl rfl) (.inl rfl) rfl rfl⟩
  refine (takeNext_does (c := c) (v := { v with frames := base }) first eligible).bind
    (Does.record fun x is => ?_)
  rw [is.config]
  exact (makeFiber_does mappable _ _).bind ((push_does _).bind does)

/-- The run loop has accounted for an entry and goes on. -/
structure Accounted (c : Site) (chain : List FiberId) (idle : FiberId) (pool : List FiberId)
    (base : List Frame) (cells : List Cell) (added : List (QueueEntry Body)) (v v' : View) :
    Prop where
  runs : Runs c v v'
  floor : Floor v' c.root chain (⟨c.root, .exec, none, 2, none⟩ :: cells)
  frames : v'.frames = .loop (c.loop idle pool) :: base
  signal : ∃ d, v'.signal = .done d
  shared : v'.shared =
    { v.shared with queue := v.shared.queue ++ added, active := v.shared.active - 1 }
  handles : v'.handles = v.handles
  reports : v'.reports = v.reports

variable {front : Frame} {halt : Halt} {verb : String} {rest : Code} {p : Option Panic}

/-- What `front` does after its fiber has halted is to account for it in some way. -/
def Accounts (c : Site) (front : Frame) (l : Loop) (id : FiberId) (left : FiberState)
    (a : Aftermath) : Prop :=
  ∀ ⦃v s u⦄, Does c v (endTurn l id a) s u → Does c v (proceedWith front (.left left)) s u

theorem Accounts.fiber (l : Loop) (id : FiberId) (left : FiberState) :
    Accounts c (.loopFiber l id) l id left (.ofFiber left) :=
  by
  intro v s u does
  change Does c v (turnedFiber l id left) s u
  exact Does.when_bind (f := fun _ => endTurn l id (.ofFiber left)) (.log _ _) does

theorem Accounts.callback (id : FiberId) (left : FiberState) :
    Accounts c (.loopCallback (c.loop idle pool) id) (c.loop idle pool) id left
      (.ofCallback left pool.length c.config.pool) :=
  fun _ _ _ does => Does.record fun _ is => is.config.symm ▸ does

namespace Halted

theorem requeued
    (h : Halted c id label n (front :: base) chain (.yields verb rest) cells v)
    (accounts : Accounts c front (c.loop idle pool) id .ready .requeue) :
    ∃ v', Accounted c chain idle pool base
      (⟨id, .ready, none, n, some (Item.frames id label verb rest)⟩ :: (rest.forest ++ cells))
      [⟨.fiber id, none⟩] v v' := by
  have goes : proceedWith front v.signal = proceedWith front (.left .ready) := by
    rw [h.signal]
    rfl
  exact ⟨{ v with
      frames := .loop (c.loop idle pool) :: base
      signal := .done .null
      shared := { v.shared with
        queue := v.shared.queue ++ [⟨.fiber id, none⟩]
        active := v.shared.active - 1 } },
    .of_act h.frames goes (accounts requeue_does), h.floor.congr rfl rfl rfl, rfl, ⟨_, rfl⟩, rfl,
    rfl, rfl⟩

theorem recycled (h : Halted c id label n (front :: base) chain (.ends p) cells v)
    (accounts : Accounts c front (c.loop idle pool) id (Halt.ends p).state .recycle) :
    ∃ v', Accounted c chain idle (id :: pool) base
      (⟨id, (Halt.ends p).state, none, n, some [.fiberEnd]⟩ :: cells) [] v v' := by
  have goes : proceedWith front v.signal = proceedWith front (.left (Halt.ends p).state) := by
    rw [h.signal]
  refine ⟨{ v with
      frames := .loop (c.loop idle (id :: pool)) :: base
      signal := .done .null
      shared := v.shared.settle },
    .of_act h.frames goes (accounts recycle_does), h.floor.congr rfl rfl rfl, rfl, ⟨_, rfl⟩, ?_,
    rfl, rfl⟩
  rw [List.append_nil]
  rfl

theorem dismissed (h : Halted c id label n (front :: base) chain (.ends p) cells v)
    (accounts : Accounts c front (c.loop idle pool) id (Halt.ends p).state .dismiss)
    {cells' : List Cell}
    (floor : Floor (v.released id) c.root chain (⟨c.root, .exec, none, 2, none⟩ :: cells')) :
    ∃ v', Accounted c chain idle pool base cells' [] v v' := by
  have goes : proceedWith front v.signal = proceedWith front (.left (Halt.ends p).state) := by
    rw [h.signal]
  have held : ∀ r, v.fibers.get? id = some r → r.entry = none := by
    intro r found
    obtain ⟨⟨q, found', _, entry, _⟩, _⟩ :=
      h.floor.holds ⟨id, (Halt.ends p).state, none, n, some [.fiberEnd]⟩ (by simp [Halt.frames])
    rw [Option.some.inj (found.symm.trans found')]
    exact entry
  let popped : View := { v with frames := base }
  have does : Does c popped (endTurn (c.loop idle pool) id .dismiss) (.done .null) _ :=
    dismiss_does held
  rw [View.released_eq id v { v with frames := base } rfl rfl] at does
  refine ⟨{ v with
      fibers := (v.released id).fibers
      saved := (v.released id).saved
      frames := .loop (c.loop idle pool) :: base
      signal := .done .null
      shared := v.shared.settle },
    .of_act h.frames goes (accounts does), floor.congr rfl rfl ?_, rfl, ⟨_, rfl⟩, ?_, rfl, rfl⟩
  · rw [View.released_eq id v v rfl rfl]
  · rw [List.append_nil]
    rfl

end Halted

end Fibers.Script
