import Fibers.Proofs.Scheduler.Turns

/-!
The run loop as a machine. Between two turns the queue holds the entries of some items, and the
fibers of all items are as they were left; a turn does to the items what the reference machine does
to its jobs.
-/

namespace Fibers.Script

/-- The fiber that was made for a task. -/
def Origin.own : Origin → List FiberId
  | .callback .. => []
  | .fiber _ id .. => [id]

/-- The fibers of its own that an item brings along: the one it runs on, if somebody may still hold
it at its end, and those to be queued. -/
def Item.family : Item → List FiberId
  | .fresh origin named _ _ code =>
    (if named then origin.own else []) ++ code.forest.map Cell.id
  | .suspended id named _ _ code => (if named then [id] else []) ++ code.forest.map Cell.id

theorem Origin.cells_ids (origin : Origin) (n : Nat) :
    (origin.cells n).map Cell.id = origin.own := by
  cases origin <;> rfl

theorem Code.forests_family (label : String) (tasks : List (Origin × Code)) :
    (Code.forests tasks).map Cell.id = (Item.ofTasks label tasks).flatMap Item.family := by
  induction tasks with
  | nil => rfl
  | cons t tasks ih =>
    obtain ⟨origin, code⟩ := t
    simp only [forests, List.map_append, Item.ofTasks, List.map_cons, List.flatMap_cons,
      Item.family, origin.cells_ids, if_true, List.append_assoc] at ih ⊢
    rw [ih]

/-- The fibers that a body has to queue are queued, or left to its rest. -/
theorem Code.forest_family (label : String) : ∀ (code : Code) {id : FiberId},
    id ∈ code.forest.map Cell.id →
      id ∈ (code.items label).flatMap Item.family ∨ id ∈ code.halt.forest.map Cell.id
  | .ends _, _, mem => .inr mem
  | .notes _ _ next, _, mem => next.forest_family label mem
  | .yields _ _, _, mem => .inr mem
  | .queues verb scheduler pinned origin code next, id, mem => by
    rw [forest_queues, List.map_append, List.mem_append, forests_family label] at mem
    rw [items, List.flatMap_cons, List.mem_append, or_assoc]
    refine mem.imp (fun mem => ?_) (next.forest_family label)
    simpa [Item.ofTasks, Item.family] using mem
  | .queuesAll verb scheduler tasks next, id, mem => by
    rw [forest, List.map_append, List.mem_append, forests_family label] at mem
    rw [items, List.flatMap_append, List.mem_append, or_assoc]
    exact mem.imp_right (next.forest_family label)

variable {c : Site}

theorem Code.items_fit (label : String) : ∀ (code : Code), code.Fits c →
    ∀ i ∈ code.items label, i.Fits c
  | .ends _, _ => nofun
  | .notes _ _ next, fits => next.items_fit label fits
  | .yields _ _, _ => nofun
  | .queues _ _ _ _ code next, fits => by
    intro i mem
    rcases List.mem_cons.mp mem with rfl | mem
    · exact ⟨fits.2.1.runs, fits.2.2.1⟩
    · exact next.items_fit label fits.2.2.2 i mem
  | .queuesAll _ _ tasks next, fits => by
    intro i mem
    rcases List.mem_append.mp mem with mem | mem
    · obtain ⟨t, member, rfl⟩ := List.mem_map.mp mem
      exact ⟨(fits.2.1.mem member).1.runs, (fits.2.1.mem member).2⟩
    · exact next.items_fit label fits.2.2 i mem

theorem Code.halt_fits : ∀ (code : Code), code.Fits c →
    ∀ {verb rest}, code.halt = .yields verb rest → rest.Fits c
  | .ends _, _, _, _, e => nomatch e
  | .notes _ _ next, fits, _, _, e => next.halt_fits fits e
  | .yields _ _, fits, _, _, rfl => fits
  | .queues _ _ _ _ _ next, fits, _, _, e => next.halt_fits fits.2.2.2 e
  | .queuesAll _ _ _ next, fits, _, _, e => next.halt_fits fits.2.2 e

/-- The body of the fiber has come to its end. -/
structure Cell.Ended (x : Cell) : Prop where
  state : x.state.isTerminal = true
  entry : x.entry = none
  handles : x.handles = 1

/-- The run loop is about to take an entry. Under it are the frames `base`; `bottom` are fibers that
no entry touches. Of the callback fibers those in `pooled` are kept; `family` are fibers of their
own, which are still with the items or are `done`. -/
structure Between (c : Site) (chain : List FiberId) (base : List Frame) (bottom : List Cell)
    (idle : FiberId) (family : List FiberId) (pooled done : List Cell) (items : List Item)
    (v : View) : Prop where
  floor : Floor v c.root chain
    (⟨c.root, .exec, none, 2, none⟩ :: (items.flatMap Item.stock ++ (bottom ++ (pooled ++ done))))
  frames : v.frames = .loop (c.loop idle (pooled.map Cell.id)) :: base
  signal : ∃ d, v.signal = .done d
  queue : v.shared.queue = items.map Item.entry
  active : v.shared.active = 0
  stopping : v.shared.stopping = true
  autoStop : v.shared.autoStop = true
  fits : ∀ i ∈ items, i.Fits c
  kept : ∀ x ∈ pooled, x.Ended
  spent : ∀ x ∈ done, x.Ended
  mine : ∀ id ∈ family, id ∈ done.map Cell.id ∨ id ∈ items.flatMap Item.family

variable {v u v' : View} {a id idle : FiberId} {chain family : List FiberId}
  {bottom pooled done cells : List Cell} {base : List Frame} {items : List Item} {label : String}
  {code : Code} {front : Frame} {named : Bool}

/-- A cell goes behind two blocks. -/
theorem perm_within (x : Cell) (xs ys rest : List Cell) :
    (x :: (xs ++ (ys ++ rest))).Perm (xs ++ (ys ++ x :: rest)) :=
  List.perm_middle.symm.trans (List.perm_middle.symm.append_left xs)

/-- An entry was taken, and its body is run on the fiber `id`; then `front` accounts for it. -/
structure Started (c : Site) (chain : List FiberId) (base : List Frame) (bottom : List Cell)
    (idle : FiberId) (family : List FiberId) (pooled done : List Cell) (items : List Item)
    (front : Frame) (id : FiberId) (named : Bool) (label : String) (code : Code) (u : View) :
    Prop where
  inside : Inside c id label (holders named) (front :: base) chain code
    (items.flatMap Item.stock ++ (bottom ++ (pooled ++ done))) u
  queue : u.shared.queue = items.map Item.entry
  active : u.shared.active = 1
  stopping : u.shared.stopping = true
  autoStop : u.shared.autoStop = true
  fits : ∀ i ∈ items, i.Fits c
  runnable : code.Fits c
  kept : ∀ x ∈ pooled, x.Ended
  spent : ∀ x ∈ done, x.Ended
  mine : ∀ j ∈ family, j ∈ done.map Cell.id ∨ j ∈ items.flatMap Item.family ∨
    (named = true ∧ j = id) ∨ j ∈ code.forest.map Cell.id
  again : Accounts c front (c.loop idle (pooled.map Cell.id)) id .ready .requeue
  last : ∀ p, Accounts c front (c.loop idle (pooled.map Cell.id)) id (Halt.ends p).state .dismiss ∨
    named = false ∧
      Accounts c front (c.loop idle (pooled.map Cell.id)) id (Halt.ends p).state .recycle

theorem Halt.ends_ended (p : Option Panic) : (Halt.ends p).state.isTerminal = true := by
  cases p <;> rfl

theorem Halt.cell_ended (id : FiberId) (p : Option Panic) :
    (⟨id, (Halt.ends p).state, none, 1, some [.fiberEnd]⟩ : Cell).Ended :=
  ⟨ends_ended p, rfl, rfl⟩

/-- The fiber has come back to the run loop, and `front` is about to account for it. What its body
queued is among `items`. -/
structure Came (c : Site) (chain : List FiberId) (base : List Frame) (bottom : List Cell)
    (idle : FiberId) (family : List FiberId) (pooled done : List Cell) (items : List Item)
    (front : Frame) (id : FiberId) (named : Bool) (label : String) (halt : Halt) (v : View) :
    Prop where
  halted : Halted c id label (holders named) (front :: base) chain halt
    (items.flatMap Item.stock ++ (bottom ++ (pooled ++ done))) v
  queue : v.shared.queue = items.map Item.entry
  active : v.shared.active = 1
  stopping : v.shared.stopping = true
  autoStop : v.shared.autoStop = true
  fits : ∀ i ∈ items, i.Fits c
  runnable : ∀ {verb rest}, halt = .yields verb rest → rest.Fits c
  kept : ∀ x ∈ pooled, x.Ended
  spent : ∀ x ∈ done, x.Ended
  mine : ∀ j ∈ family, j ∈ done.map Cell.id ∨ j ∈ items.flatMap Item.family ∨
    (named = true ∧ j = id) ∨ j ∈ halt.forest.map Cell.id
  again : Accounts c front (c.loop idle (pooled.map Cell.id)) id .ready .requeue
  last : ∀ p, Accounts c front (c.loop idle (pooled.map Cell.id)) id (Halt.ends p).state .dismiss ∨
    named = false ∧
      Accounts c front (c.loop idle (pooled.map Cell.id)) id (Halt.ends p).state .recycle

theorem Started.comes
    (h : Started c chain base bottom idle family pooled done items front id named label code u)
    (walked : Walked c id label (holders named) (front :: base) chain code
      (items.flatMap Item.stock ++ (bottom ++ (pooled ++ done))) u v) :
    Came c chain base bottom idle family pooled done (items ++ code.items label) front id named
      label code.halt v where
  halted := by
    apply walked.halted.perm
    rw [List.flatMap_append, List.append_assoc]
    exact List.perm_append_comm_assoc ..
  queue := by rw [walked.shared, h.queue, List.map_append]
  active := by rw [walked.shared, h.active]
  stopping := by rw [walked.shared, h.stopping]
  autoStop := by rw [walked.shared, h.autoStop]
  fits := by
    intro i mem
    rcases List.mem_append.mp mem with mem | mem
    · exact h.fits i mem
    · exact code.items_fit label h.runnable i mem
  runnable := code.halt_fits h.runnable
  kept := h.kept
  spent := h.spent
  mine := by
    intro j mem
    rw [List.flatMap_append, List.mem_append]
    rcases h.mine j mem with spent | waits | own | rest
    · exact .inl spent
    · exact .inr (.inl (.inl waits))
    · exact .inr (.inr (.inl own))
    · rcases code.forest_family label rest with queued | left
      · exact .inr (.inl (.inr queued))
      · exact .inr (.inr (.inr left))
  again := h.again
  last := h.last

/-- The run loop has accounted for the entry it took, and is between two turns again. -/
structure Resumed (c : Site) (chain : List FiberId) (base : List Frame) (bottom : List Cell)
    (idle : FiberId) (family : List FiberId) (pooled done : List Cell) (items : List Item)
    (v v' : View) : Prop where
  runs : Runs c v v'
  between : Between c chain base bottom idle family pooled done items v'
  handles : v'.handles = v.handles
  reports : v'.reports = v.reports

namespace Came

variable {verb : String} {rest : Code} {halt : Halt} {p : Option Panic} {items' : List Item}
  {pooled' done' : List Cell} {added : List (QueueEntry Body)}

/-- What is left to show once the entry was accounted for: where the items and the callback fibers
are, and that no fiber of the family got lost. -/
theorem resumes
    (h : Came c chain base bottom idle family pooled done items front id named label halt v)
    (acc : Accounted c chain idle (pooled'.map Cell.id) base cells added v v')
    (queue : items.map Item.entry ++ added = items'.map Item.entry)
    (fits : ∀ i ∈ items', i.Fits c) (kept : ∀ x ∈ pooled', x.Ended) (spent : ∀ x ∈ done', x.Ended)
    (mine : ∀ j ∈ family, j ∈ done'.map Cell.id ∨ j ∈ items'.flatMap Item.family)
    (perm : cells.Perm (items'.flatMap Item.stock ++ (bottom ++ (pooled' ++ done')))) :
    Resumed c chain base bottom idle family pooled' done' items' v v' where
  runs := acc.runs
  between :=
    { floor := acc.floor.perm (perm.cons _)
      frames := acc.frames
      signal := acc.signal
      queue := by rw [acc.shared, ← queue, ← h.queue]
      active := by rw [acc.shared, h.active]
      stopping := by rw [acc.shared, h.stopping]
      autoStop := by rw [acc.shared, h.autoStop]
      fits := fits
      kept := kept
      spent := spent
      mine := mine }
  handles := acc.handles
  reports := acc.reports

/-- A fiber that yielded becomes the last item. -/
theorem requeues
    (h : Came c chain base bottom idle family pooled done items front id named label
      (.yields verb rest) v) :
    ∃ v', Resumed c chain base bottom idle family pooled done
      (items ++ [.suspended id named label verb rest]) v v' := by
  obtain ⟨v', acc⟩ := h.halted.requeued h.again
  let item : Item := .suspended id named label verb rest
  refine ⟨v', h.resumes acc ?queue ?fits h.kept h.spent ?mine ?perm⟩
  case queue =>
    have entry : [⟨.fiber id, none⟩] = [item].map Item.entry := rfl
    rw [entry, List.map_append]
  case fits =>
    intro i mem
    rcases List.mem_append.mp mem with mem | mem
    · exact h.fits i mem
    · obtain rfl := List.mem_singleton.mp mem
      exact h.runnable rfl
  case mine =>
    intro j mem
    rw [List.flatMap_append, List.mem_append, List.flatMap_singleton]
    rcases h.mine j mem with spent | waits | ⟨own, rfl⟩ | left
    · exact .inl spent
    · exact .inr (.inl waits)
    · exact .inr (.inr (by simp [Item.family, own]))
    · exact .inr (.inr (List.mem_append_right _ left))
  case perm =>
    rw [List.flatMap_append, List.flatMap_singleton, List.append_assoc]
    exact List.perm_append_comm_assoc item.stock ..

/-- At the end of a fiber nothing is left of its body. -/
theorem mine_of_ends
    (h : Came c chain base bottom idle family pooled done items front id named label (.ends p) v) :
    ∀ j ∈ family, j ∈ done.map Cell.id ∨ j ∈ items.flatMap Item.family ∨
      named = true ∧ j = id := by
  intro j mem
  rcases h.mine j mem with spent | waits | own | left
  · exact .inl spent
  · exact .inr (.inl waits)
  · exact .inr (.inr own)
  · cases left

/-- A fiber that somebody else may still hold is done. -/
theorem retires
    (h : Came c chain base bottom idle family pooled done items front id true label (.ends p) v)
    (dismiss : Accounts c front (c.loop idle (pooled.map Cell.id)) id (Halt.ends p).state
      .dismiss) :
    ∃ done' v', Resumed c chain base bottom idle family pooled done' items v v' := by
  have swapped := h.halted.floor.perm (List.Perm.swap ..)
  have floor := (swapped.release_several (Nat.le_refl 2)).perm (List.Perm.swap ..)
  obtain ⟨v', acc⟩ := h.halted.dismissed dismiss floor
  let cell : Cell := ⟨id, (Halt.ends p).state, none, 1, some [.fiberEnd]⟩
  have spent : ∀ x ∈ cell :: done, x.Ended :=
    List.forall_mem_cons.mpr ⟨Halt.cell_ended id p, h.spent⟩
  refine ⟨cell :: done, v', h.resumes acc (List.append_nil _) h.fits h.kept spent ?mine ?perm⟩
  case mine =>
    intro j mem
    rcases h.mine_of_ends j mem with spent | waits | ⟨_, rfl⟩
    · exact .inl (List.mem_cons_of_mem _ spent)
    · exact .inr waits
    · exact .inl List.mem_cons_self
  case perm =>
    refine List.perm_middle.symm.trans ((perm_within cell ..).trans ?_)
    exact (List.perm_middle.symm.append_left bottom).append_left _

theorem mine_of_unnamed
    (h : Came c chain base bottom idle family pooled done items front id false label (.ends p) v) :
    ∀ j ∈ family, j ∈ done.map Cell.id ∨ j ∈ items.flatMap Item.family := by
  intro j mem
  rcases h.mine_of_ends j mem with spent | waits | ⟨own, _⟩
  · exact .inl spent
  · exact .inr waits
  · cases own

/-- A fiber that nobody else holds is gone. -/
theorem vanishes
    (h : Came c chain base bottom idle family pooled done items front id false label (.ends p) v)
    (dismiss : Accounts c front (c.loop idle (pooled.map Cell.id)) id (Halt.ends p).state
      .dismiss) :
    ∃ v', Resumed c chain base bottom idle family pooled done items v v' := by
  have still : (Halt.ends p).state ≠ .exec ∧ (Halt.ends p).state ≠ .hold := by
    cases p <;> exact ⟨nofun, nofun⟩
  have swapped := h.halted.floor.perm (List.Perm.swap ..)
  obtain ⟨v', acc⟩ := h.halted.dismissed dismiss (swapped.released still.1 still.2)
  exact ⟨v', h.resumes acc (List.append_nil _) h.fits h.kept h.spent h.mine_of_unnamed (.refl _)⟩

/-- A callback fiber is kept for the next callback. -/
theorem recycles
    (h : Came c chain base bottom idle family pooled done items front id false label (.ends p) v)
    (recycle : Accounts c front (c.loop idle (pooled.map Cell.id)) id (Halt.ends p).state
      .recycle) :
    ∃ pooled' v', Resumed c chain base bottom idle family pooled' done items v v' := by
  obtain ⟨v', acc⟩ := h.halted.recycled recycle
  let cell : Cell := ⟨id, (Halt.ends p).state, none, 1, some [.fiberEnd]⟩
  have kept : ∀ x ∈ cell :: pooled, x.Ended :=
    List.forall_mem_cons.mpr ⟨Halt.cell_ended id p, h.kept⟩
  exact ⟨cell :: pooled, v', h.resumes acc (List.append_nil _) h.fits kept h.spent
    h.mine_of_unnamed (perm_within cell ..)⟩

theorem ends
    (h : Came c chain base bottom idle family pooled done items front id named label (.ends p) v) :
    ∃ pooled' done' v', Resumed c chain base bottom idle family pooled' done' items v v' := by
  rcases h.last p with dismiss | ⟨rfl, recycle⟩
  · cases named with
    | true =>
      obtain ⟨done', v', resumed⟩ := h.retires dismiss
      exact ⟨pooled, done', v', resumed⟩
    | false =>
      obtain ⟨v', resumed⟩ := h.vanishes dismiss
      exact ⟨pooled, done, v', resumed⟩
  · obtain ⟨pooled', v', resumed⟩ := h.recycles recycle
    exact ⟨pooled', done, v', resumed⟩

/-- What a halted fiber leaves to be done follows the other items. -/
theorem goes_on
    (h : Came c chain base bottom idle family pooled done items front id named label halt v) :
    ∃ pooled' done' items' v',
      Resumed c chain base bottom idle family pooled' done' items' v v' ∧
      items'.map Item.job = items.map Item.job ++ halt.left := by
  cases halt with
  | yields verb rest =>
    obtain ⟨v', resumed⟩ := h.requeues
    exact ⟨_, _, _, v', resumed, List.map_append⟩
  | ends p =>
    obtain ⟨pooled', done', v', resumed⟩ := h.ends
    exact ⟨pooled', done', items, v', resumed, (List.append_nil _).symm⟩

end Came

/-- What a turn does after it has taken an entry. -/
theorem Started.goes_on (one : c.config.threads = 1)
    (h : Started c chain base bottom idle family pooled done items front id named label code u) :
    ∃ pooled' done' items' v', Runs c u v' ∧
      Between c chain base bottom idle family pooled' done' items' v' ∧
      items'.map Item.job = items.map Item.job ++ (code.segment c.count items.length).queued ++
        (code.segment c.count items.length).left ∧
      v'.handles = u.handles ∧
      v'.reports = u.reports ++ (code.segment c.count items.length).reports := by
  obtain ⟨v, walked⟩ := h.inside.walk one code h.runnable
  obtain ⟨pooled', done', items', v', resumed, jobs⟩ := (h.comes walked).goes_on
  have length : u.shared.queue.length = items.length := by rw [h.queue, List.length_map]
  have reports := walked.reports
  rw [length] at reports
  refine ⟨pooled', done', items', v', walked.runs.trans resumed.runs, resumed.between, ?_, ?_, ?_⟩
  · rw [jobs, List.map_append, code.segment_queued label, code.segment_left]
  · rw [resumed.handles, walked.handles]
  · rw [resumed.reports, reports]

theorem Accounts.fiber_again (l : Loop) (id : FiberId) :
    Accounts c (.loopFiber l id) l id .ready .requeue := Accounts.fiber l id .ready

theorem Accounts.fiber_last (l : Loop) (id : FiberId) (p : Option Panic) :
    Accounts c (.loopFiber l id) l id (Halt.ends p).state .dismiss := by
  cases p with
  | none => exact Accounts.fiber l id .term
  | some p => exact Accounts.fiber l id .except

theorem Accounts.callback_last (pool : List FiberId) (p : Option Panic) :
    Accounts c (.loopCallback (c.loop idle pool) id) (c.loop idle pool) id (Halt.ends p).state
        .dismiss ∨
      Accounts c (.loopCallback (c.loop idle pool) id) (c.loop idle pool) id (Halt.ends p).state
        .recycle := by
  have last : Accounts c (.loopCallback (c.loop idle pool) id) (c.loop idle pool) id
      (Halt.ends p).state (.ofCallback (Halt.ends p).state pool.length c.config.pool) :=
    Accounts.callback id _
  have after : Aftermath.ofCallback (Halt.ends p).state pool.length c.config.pool =
      if pool.length < c.config.pool then .recycle else .dismiss := by
    cases p <;> rfl
  rw [after] at last
  split at last
  · exact .inr last
  · exact .inl last

variable {i : Item}

theorem Item.runnable (h : i.Fits c) : i.job.code.Fits c := by
  cases i with
  | fresh => exact h.2
  | suspended => exact h

/-- The fiber of the first item was entered. -/
theorem Between.started {pooled' : List Cell} {entry : Option Body} {n : Nat} {fs : List Frame}
    (h : Between c chain base bottom idle family pooled done (i :: items) v)
    (entered : Entered c chain front base id entry n fs cells
      (v.taking (items.map Item.entry)) v u)
    (inside : Inside c id label (holders named) (front :: base) chain i.job.code
      (items.flatMap Item.stock ++ (bottom ++ (pooled' ++ done))) v')
    (shared : v'.shared = u.shared) (kept : ∀ x ∈ pooled', x.Ended)
    (own : ∀ j ∈ i.family, (named = true ∧ j = id) ∨ j ∈ i.job.code.forest.map Cell.id)
    (again : Accounts c front (c.loop idle (pooled'.map Cell.id)) id .ready .requeue)
    (last : ∀ p,
      Accounts c front (c.loop idle (pooled'.map Cell.id)) id (Halt.ends p).state .dismiss ∨
        named = false ∧
          Accounts c front (c.loop idle (pooled'.map Cell.id)) id (Halt.ends p).state .recycle) :
    Started c chain base bottom idle family pooled' done items front id named label i.job.code
      v' where
  inside := inside
  queue := by rw [shared, entered.shared, View.taking]
  active := by rw [shared, entered.shared, View.taking, h.active]
  stopping := by rw [shared, entered.shared, View.taking, h.stopping]
  autoStop := by rw [shared, entered.shared, View.taking, h.autoStop]
  fits j mem := h.fits j (List.mem_cons_of_mem i mem)
  runnable := Item.runnable (h.fits i List.mem_cons_self)
  kept := kept
  spent := h.spent
  mine j mem := by
    rcases h.mine j mem with spent | waits
    · exact .inl spent
    · rw [List.flatMap_cons, List.mem_append] at waits
      rcases waits with first | waits
      · exact .inr (.inr (own j first))
      · exact .inr (.inl waits)
  again := again
  last := last

/-- The first item is taken, and its body is run. -/
def Takes (c : Site) (chain : List FiberId) (base : List Frame) (bottom : List Cell)
    (idle : FiberId) (family : List FiberId) (done : List Cell) (i : Item) (items : List Item)
    (v : View) : Prop :=
  ∃ pooled front id named label u, Runs c v u ∧
    Started c chain base bottom idle family pooled done items front id named label i.job.code u ∧
    u.handles = v.handles ∧
    u.reports = v.reports ++ (i.job.back.map fun verb => (verb, Datum.null)).toList

/-- A cell comes before three blocks. -/
theorem perm_first (x : Cell) (xs ys zs rest : List Cell) :
    (xs ++ (ys ++ (zs ++ x :: rest))).Perm (x :: (xs ++ (ys ++ (zs ++ rest)))) := by
  rw [← List.append_assoc, ← List.append_assoc, ← List.append_assoc xs, ← List.append_assoc]
  exact List.perm_middle

theorem pinned_cases (pinned : Bool) :
    (if pinned then some 0 else none : Option Nat) = none ∨
      (if pinned then some 0 else none : Option Nat) = some 0 := by
  cases pinned
  · exact .inl rfl
  · exact .inr rfl

theorem Between.takes_suspended {verb : String}
    (h : Between c chain base bottom idle family pooled done
      (.suspended id named label verb code :: items) v) :
    Takes c chain base bottom idle family done (.suspended id named label verb code) items v := by
  obtain ⟨d, signal⟩ := h.signal
  have floor := h.floor
  simp only [List.flatMap_cons, Item.stock, List.cons_append, List.append_assoc] at floor
  obtain ⟨u, entered⟩ := turnFiber_runs h.frames signal (.inl rfl) h.queue floor (.inr rfl)
  obtain ⟨u', returns, inside, shared, handles, reports⟩ :=
    returns_runs entered.floor entered.frames entered.signal
  refine ⟨pooled, _, id, named, label, u', entered.runs.trans returns,
    h.started entered inside shared h.kept (fun j mem => ?_) (.fiber_again _ id)
      fun p => .inl (.fiber_last _ id p), handles.trans entered.handles, ?_⟩
  · rcases List.mem_append.mp mem with own | rest
    · cases named with
      | true => exact .inl ⟨rfl, List.mem_singleton.mp own⟩
      | false => cases own
    · exact .inr rest
  · rw [reports, entered.reports]
    rfl

theorem Between.takes_fiber {name own : String} {block : Nat} {pinned : Bool}
    (h : Between c chain base bottom idle family pooled done
      (.fresh (.fiber name id block own) named label pinned code :: items) v) :
    Takes c chain base bottom idle family done
      (.fresh (.fiber name id block own) named label pinned code) items v := by
  obtain ⟨d, signal⟩ := h.signal
  have floor := h.floor
  simp only [List.flatMap_cons, Item.stock, Origin.cells, List.cons_append, List.nil_append,
    List.append_assoc] at floor
  obtain ⟨u, entered⟩ :=
    turnFiber_runs h.frames signal (pinned_cases pinned) h.queue floor (.inl rfl)
  have fits := h.fits _ List.mem_cons_self
  obtain ⟨u', begins, inside, shared, handles, reports⟩ :=
    begins_runs entered.floor entered.frames entered.signal fits.1
  refine ⟨pooled, _, id, named, own, u', entered.runs.trans begins,
    h.started entered inside shared h.kept (fun j mem => ?_) (.fiber_again _ id)
      fun p => .inl (.fiber_last _ id p), handles.trans entered.handles, ?_⟩
  · rcases List.mem_append.mp mem with own | rest
    · cases named with
      | true => exact .inl ⟨rfl, List.mem_singleton.mp own⟩
      | false => cases own
    · exact .inr rest
  · rw [reports, entered.reports]
    exact (List.append_nil _).symm

theorem Between.takes_callback {usable block : Nat} {own : Option String} {pinned : Bool}
    (mappable : Mappable c.config.stackSize usable)
    (h : Between c chain base bottom idle family pooled done
      (.fresh (.callback block own) named label pinned code :: items) v) :
    Takes c chain base bottom idle family done
      (.fresh (.callback block own) named label pinned code) items v := by
  obtain ⟨d, signal⟩ := h.signal
  have fits := h.fits _ List.mem_cons_self
  suffices taken : ∃ pooled' id u, (∀ x ∈ pooled', x.Ended) ∧
      Entered c chain (.loopCallback (c.loop idle (pooled'.map Cell.id)) id) base id
        (some (.script block (own.getD label))) 1 [.fiberStart id]
        (code.forest ++ (items.flatMap Item.stock ++ (bottom ++ (pooled' ++ done))))
        (v.taking (items.map Item.entry)) v u by
    obtain ⟨pooled', id, u, kept, entered⟩ := taken
    obtain ⟨u', begins, inside, shared, handles, reports⟩ :=
      begins_runs entered.floor entered.frames entered.signal fits.1
    refine ⟨pooled', _, id, false, own.getD label, u', entered.runs.trans begins,
      h.started entered inside shared kept (fun j mem => .inr ?_)
        (Accounts.callback id .ready) fun p => ?_, handles.trans entered.handles, ?_⟩
    · rcases List.mem_append.mp mem with own | rest
      · cases named <;> cases own
      · exact rest
    · exact (Accounts.callback_last _ p).imp_right fun recycle => ⟨rfl, recycle⟩
    · rw [reports, entered.reports]
      exact (List.append_nil _).symm
  have floor := h.floor
  simp only [List.flatMap_cons, Item.stock, Origin.cells, List.nil_append, List.append_assoc]
    at floor
  cases pooled with
  | nil =>
    obtain ⟨id, u, entered⟩ :=
      turnCallback_fresh_runs mappable h.frames signal (pinned_cases pinned) h.queue floor
    exact ⟨[], id, u, fun _ mem => absurd mem List.not_mem_nil, entered⟩
  | cons x pooled =>
    obtain ⟨id, st, entry, n, kept⟩ := x
    obtain ⟨ended, rfl, rfl⟩ := h.kept _ List.mem_cons_self
    have front := floor.perm ((List.Perm.cons _ (perm_first ..)))
    obtain ⟨u, entered⟩ :=
      turnCallback_kept_runs h.frames signal (pinned_cases pinned) h.queue front ended
    exact ⟨pooled, id, u, fun y mem => h.kept y (List.mem_cons_of_mem _ mem), entered⟩

/-- Whatever the first item is, it is taken. -/
theorem Between.takes {usable : Nat} (mappable : Mappable c.config.stackSize usable)
    (h : Between c chain base bottom idle family pooled done (i :: items) v) :
    Takes c chain base bottom idle family done i items v := by
  cases i with
  | fresh origin named label pinned code =>
    cases origin with
    | callback block own => exact h.takes_callback mappable
    | fiber name id block own => exact h.takes_fiber
  | suspended id named label verb code => exact h.takes_suspended

/-- A turn does to the items what the reference machine does to their jobs. -/
theorem Between.turn {usable : Nat} (one : c.config.threads = 1)
    (mappable : Mappable c.config.stackSize usable)
    (h : Between c chain base bottom idle family pooled done (i :: items) v) :
    ∃ pooled' done' items' v', Runs c v v' ∧
      Between c chain base bottom idle family pooled' done' items' v' ∧
      items'.map Item.job = items.map Item.job ++ (i.job.segment c.count items.length).queued ++
        (i.job.segment c.count items.length).left ∧
      v'.handles = v.handles ∧
      v'.reports = v.reports ++ (i.job.segment c.count items.length).reports := by
  obtain ⟨_, _, _, _, _, u, takes, started, handles, reports⟩ := h.takes mappable
  obtain ⟨pooled', done', items', v', runs, between, jobs, handles', reports'⟩ :=
    started.goes_on one
  refine ⟨pooled', done', items', v', takes.trans runs, between, jobs, handles'.trans handles, ?_⟩
  rw [reports', reports, List.append_assoc]
  rfl

/-- The turns of the run loop until the queue is empty, by induction on the work that the jobs still
have to do. -/
theorem Between.drains {usable : Nat} (one : c.config.threads = 1)
    (mappable : Mappable c.config.stackSize usable) (js : List Job)
    (h : Between c chain base bottom idle family pooled done items v)
    (jobs : items.map Item.job = js) :
    ∃ pooled' done' v', Runs c v v' ∧
      Between c chain base bottom idle family pooled' done' [] v' ∧
      v'.handles = v.handles ∧ v'.reports = v.reports ++ drain c.count js := by
  induction js using drain.induct c.count generalizing items pooled done v with
  | case1 =>
    obtain rfl := List.map_eq_nil_iff.mp jobs
    refine ⟨pooled, done, v, .refl v, h, rfl, ?_⟩
    rw [drain, List.append_nil]
  | @case2 j js s ih =>
    obtain ⟨i, items, rfl, rfl, rfl⟩ := List.map_eq_cons_iff.mp jobs
    have turn := h.turn one mappable
    have length : items.length = (items.map Item.job).length := (List.length_map ..).symm
    rw [length] at turn
    obtain ⟨_, _, _, u, first, between, jobs, handles, reports⟩ := turn
    obtain ⟨pooled', done', v', rest, between, handles', reports'⟩ := ih between jobs
    refine ⟨pooled', done', v', first.trans rest, between, handles'.trans handles, ?_⟩
    rw [reports', reports, drain, List.append_assoc]

end Fibers.Script
