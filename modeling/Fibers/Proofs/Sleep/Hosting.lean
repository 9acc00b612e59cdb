import Fibers.Proofs.Sleep.Alarms
import Fibers.Proofs.Sleep.Rounds

/-!
A manager whose tasks only sleep. Its queue and its timers are those of the machine of such tasks;
the fibers of sleeps wait with the frames that their calls have put away, and the handles that these
frames and the timers hold are accounted for.
-/

namespace Fibers.Script

/-- The steps of a task that makes some sleeps, each with its verb. -/
def napSteps (naps : List (String × Duration)) : List Step :=
  naps.map fun n => .perform n.1 (.fiber (.sleep n.2))

namespace Nap

/-- What the fiber of a sleep does once it is resumed. -/
def frames (p : Station) (x : Nap) : List Frame :=
  .release [.scheduler p.scheduler, .reactor p.reactor] :: .answerClock ::
    .report x.verb x.sleep.label ::
      (stepFrames x.sleep.label (napSteps x.rest) ++ [.fiberBody x.sleep.fiber])

/-- The fiber of a sleep, with a number of handles. -/
def cell (p : Station) (n : Nat) (x : Nap) : Cell :=
  ⟨x.sleep.fiber, .hold, none, n, some (x.frames p)⟩

end Nap

namespace Chore

/-- The body of a task. -/
def body (x : Chore) : Body := .script x.block x.label

def entry (x : Chore) : QueueEntry Body :=
  match x.fiber? with
  | some id => ⟨.fiber id, x.worker⟩
  | none => ⟨.callback x.body, x.worker⟩

def cells (x : Chore) : List Cell :=
  match x.fiber? with
  | some id => [⟨id, .init, some x.body, 1, some [.fiberStart id]⟩]
  | none => []

/-- The only worker may run a task, whose block makes its sleeps. -/
structure Fits (p : Station) (x : Chore) : Prop where
  pin : x.worker = none ∨ x.worker = some 0
  block : p.program.block x.block = napSteps x.naps

end Chore

namespace Dorm

namespace Job

def entry (p : Station) : Job → QueueEntry Body
  | fresh x => x.entry
  | wake x => ⟨.callback (.timer (x.callback p.scheduler)), none⟩
  | risen x => ⟨.fiber x.sleep.fiber, none⟩

def cells (p : Station) : Job → List Cell
  | fresh x => x.cells
  | wake x | risen x => [x.cell p 1]

def Fits (p : Station) : Job → Prop
  | fresh x => x.Fits p
  | _ => True

/-- The handles of the scheduler that an entry accounts for. -/
def dues : Job → Nat
  | fresh _ => 0
  | wake _ => 2
  | risen _ => 1

/-- The handles of the reactor. -/
def lends : Job → Nat
  | fresh _ => 0
  | wake _ | risen _ => 1

end Job

/-- The fibers of tasks that wait. -/
def cells (p : Station) (d : Dorm) : List Cell :=
  d.queue.flatMap (Job.cells p) ++ d.alarms.map (Nap.cell p 1)

/-- The handles of the scheduler that sleeps and their timers hold. -/
def dues (d : Dorm) : Nat := (d.queue.map Job.dues).sum + 2 * d.alarms.length

/-- The handles of the reactor that sleeps hold. -/
def lends (d : Dorm) : Nat := (d.queue.map Job.lends).sum + d.alarms.length

/-- The fiber of a sleep that has not come back waits. -/
theorem cell_mem {d : Dorm} {x : Nap} (mem : x ∈ d.line) (p : Station) :
    x.cell p 1 ∈ d.cells p := by
  rcases List.mem_append.mp mem with mem | mem
  · refine List.mem_append_left _ (List.mem_flatMap.mpr ?_)
    rcases List.mem_append.mp mem with mem | mem
    all_goals
      obtain ⟨j, among, same⟩ := List.mem_filterMap.mp mem
      cases j <;> cases same
      exact ⟨_, among, List.mem_singleton_self _⟩
  · exact List.mem_append_right _ (List.mem_map_of_mem mem)

/-- A call for a sleep puts its fiber to those that wait. -/
theorem goesOn_cells (p : Station) (d : Dorm) (id : FiberId) (label verb : String)
    (duration : Duration) (rest : List (String × Duration)) :
    ((d.goesOn id label ((verb, duration) :: rest)).cells p).Perm
      (Nap.cell p 1 ⟨⟨id, label, duration, d.now, none⟩, (sleeps d.log).length, verb, rest⟩ ::
        d.cells p) := by
  have alarms := (Nap.insert_perm ⟨⟨id, label, duration, d.now, none⟩, (sleeps d.log).length, verb,
    rest⟩ d.alarms).map (Nap.cell p 1)
  exact (alarms.append_left (d.queue.flatMap (Job.cells p))).trans List.perm_middle

/-- Handles are accounted for when alarms ring. -/
theorem ringing_dues {d : Dorm} (queue : d.queue = []) (t : Instant) :
    (d.ringing t).dues = d.dues := by
  have all := (ringing_perm d t).length_eq
  have wakes : ∀ l : List Nap, ((l.map Job.wake).map Job.dues).sum = 2 * l.length := by
    intro l
    induction l with
    | nil => rfl
    | cons x l ih =>
      simp only [List.map_cons, List.sum_cons, List.length_cons, ih, Job.dues]
      omega
  rw [List.length_append] at all
  simp only [dues, ringing, queue, wakes, List.map_nil, List.sum_nil]
  omega

theorem ringing_lends {d : Dorm} (queue : d.queue = []) (t : Instant) :
    (d.ringing t).lends = d.lends := by
  have all := (ringing_perm d t).length_eq
  have wakes : ∀ l : List Nap, ((l.map Job.wake).map Job.lends).sum = l.length := by
    intro l
    induction l with
    | nil => rfl
    | cons x l ih =>
      simp only [List.map_cons, List.sum_cons, List.length_cons, ih, Job.lends]
      omega
  rw [List.length_append] at all
  simp only [lends, ringing, queue, wakes, List.map_nil, List.sum_nil]
  omega

/-- The fibers of sleeps go on waiting when alarms ring. -/
theorem ringing_cells {d : Dorm} (p : Station) (queue : d.queue = []) (t : Instant) :
    (d.cells p).Perm ((d.ringing t).cells p) := by
  have all := (ringing_perm d t).map (Nap.cell p 1)
  have wakes : ∀ l : List Nap, (l.map Job.wake).flatMap (Job.cells p) = l.map (Nap.cell p 1) := by
    intro l
    rw [List.flatMap_map, List.map_eq_flatMap]
    rfl
  rw [List.map_append] at all
  simp only [cells, ringing, queue, wakes, List.flatMap_nil, List.nil_append]
  exact all.symm

/-- Tasks that have not begun hold no handles. -/
theorem start_handles (now : Instant) (chores : List Chore) :
    dues ⟨now, chores.map .fresh, [], []⟩ = 0 ∧ lends ⟨now, chores.map .fresh, [], []⟩ = 0 := by
  induction chores with
  | nil => exact ⟨rfl, rfl⟩
  | cons x chores ih =>
    refine ⟨Eq.trans ?_ ih.1, Eq.trans ?_ ih.2⟩
    all_goals simp [dues, lends, Job.dues, Job.lends]

end Dorm

/-- The work of a scene is that of the machine; `due` and `lent` are other handles of the scheduler
and the reactor. -/
structure Hosts (p : Station) (d : Dorm) (due lent active : Nat) (c : Scene) : Prop where
  queue : c.shared.queue = d.queue.map (Dorm.Job.entry p)
  active : c.shared.active = active
  stopping : c.shared.stopping = true
  autoStop : c.shared.autoStop = true
  wait : c.wait = none
  table : c.table.Holds .empty
  rings : Rings p.scheduler c.timers d.alarms (sleeps d.log).length
  fits : ∀ j ∈ d.queue, j.Fits p
  handles : due + d.dues ≤ c.handles
  held : lent + d.lends ≤ c.held

namespace Hosts

variable {p : Station} {d : Dorm} {due lent active : Nat} {c u : Scene} {j : Dorm.Job}
  {q : List Dorm.Job}

/-- The fibers and their frames do not matter. -/
theorem steady (h : Hosts p d due lent active c) (same : c.Steady u) :
    Hosts p d due lent active u where
  queue := same.shared ▸ h.queue
  active := same.shared ▸ h.active
  stopping := same.shared ▸ h.stopping
  autoStop := same.shared ▸ h.autoStop
  wait := same.wait.trans h.wait
  table := same.table ▸ h.table
  rings := same.timers ▸ h.rings
  fits := h.fits
  handles := same.handles ▸ h.handles
  held := same.held ▸ h.held

/-- An entry that was taken is accounted for. -/
theorem settled (h : Hosts p d due lent (active + 1) c) :
    Hosts p d due lent active { c with shared := c.shared.settle } :=
  { h with active := congrArg (· - 1) h.active }

/-- The first entry is taken, with the handles that it accounts for. -/
theorem taking (h : Hosts p d due lent active c) (queue : d.queue = j :: q) :
    Hosts p (d.taking q) (due + j.dues) (lent + j.lends) (active + 1)
      (c.taking (q.map (Dorm.Job.entry p))) where
  queue := rfl
  active := congrArg (· + 1) h.active
  stopping := h.stopping
  autoStop := h.autoStop
  wait := h.wait
  table := h.table
  rings := h.rings
  fits i mem := h.fits i (queue ▸ List.mem_cons_of_mem j mem)
  handles := by
    have handles := h.handles
    rw [Dorm.dues, queue, List.map_cons, List.sum_cons] at handles
    simp only [Dorm.dues, Dorm.taking, Scene.taking]
    omega
  held := by
    have held := h.held
    rw [Dorm.lends, queue, List.map_cons, List.sum_cons] at held
    simp only [Dorm.lends, Dorm.taking, Scene.taking]
    omega

/-- A call for a sleep arms its timer, and takes handles. -/
theorem sleeps {id : FiberId} {label verb : String} {duration : Duration}
    {rest : List (String × Duration)} {m : Timers TimerBody} (h : Hosts p d due lent active c)
    (rings : Rings p.scheduler m
      (Nap.insert ⟨⟨id, label, duration, d.now, none⟩, (sleeps d.log).length, verb, rest⟩ d.alarms)
      ((Script.sleeps d.log).length + 1)) :
    Hosts p (d.goesOn id label ((verb, duration) :: rest)) due lent active
      { c with timers := m, handles := c.handles + 2, held := c.held + 1 } := by
  have one : (Nap.insert ⟨⟨id, label, duration, d.now, none⟩, (Script.sleeps d.log).length, verb,
      rest⟩ d.alarms).length = d.alarms.length + 1 := (Nap.insert_perm _ _).length_eq
  have handles := h.handles
  have held := h.held
  refine { h with rings := ?_, handles := ?_, held := ?_ }
  · rw [Dorm.goesOn, sleeps_begun, List.length_append, List.length_singleton]
    exact rings
  · simp only [Dorm.dues, Dorm.goesOn, one] at handles ⊢
    omega
  · simp only [Dorm.lends, Dorm.goesOn, one] at held ⊢
    omega

/-- The wake of a sleep queues its fiber, which accounts for handles of its own. -/
theorem roused {y : Nap} (h : Hosts p (d.taking q) (due + 1) (lent + 1) active c) :
    Hosts p (d.taking (q ++ [.risen y])) due lent active
      { c with shared := { c.shared with
        queue := c.shared.queue ++ [⟨.fiber y.sleep.fiber, none⟩] } } := by
  have handles := h.handles
  have held := h.held
  refine { h with queue := ?_, fits := fun j mem => ?_, handles := ?_, held := ?_ }
  · simp only [Dorm.taking, List.map_append, h.queue]
    rfl
  · rcases List.mem_append.mp mem with mem | mem
    · exact h.fits j mem
    · obtain rfl := List.mem_singleton.mp mem
      trivial
  · simp only [Dorm.dues, Dorm.taking, List.map_append, List.sum_append, List.map_cons,
      List.map_nil, List.sum_cons, List.sum_nil, Dorm.Job.dues] at handles ⊢
    omega
  · simp only [Dorm.lends, Dorm.taking, List.map_append, List.sum_append, List.map_cons,
      List.map_nil, List.sum_cons, List.sum_nil, Dorm.Job.lends] at held ⊢
    omega

/-- Alarms that are due are queued. -/
theorem ringing {m : Timers TimerBody} {t : Instant} (h : Hosts p d due lent active c)
    (queue : d.queue = [])
    (rings : Rings p.scheduler m (d.ringing t).alarms (Script.sleeps d.log).length) :
    Hosts p (d.ringing t) due lent active
      { c with
        timers := m
        shared := { c.shared with
          queue := c.shared.queue ++ ((d.alarms.filter fun x => decide (x.sleep.due ≤ t)).map
            (Nap.callback p.scheduler)).map fun b => ⟨.callback (.timer b), none⟩ } } := by
  refine { h with queue := ?_, rings := rings, fits := fun j mem => ?_, handles := ?_, held := ?_ }
  · simp only [h.queue, queue, Dorm.ringing, List.map_nil, List.nil_append, List.map_map]
    rfl
  · obtain ⟨x, -, rfl⟩ := List.mem_map.mp mem
    trivial
  · rw [Dorm.ringing_dues queue]
    exact h.handles
  · rw [Dorm.ringing_lends queue]
    exact h.held

end Hosts

namespace Station

/-- The run loop is about to take an entry. -/
structure AtTurn (p : Station) (k : Bench) (d : Dorm) (c : Scene) : Prop where
  valid : k.Valid
  hosts : Hosts p d (3 + k.begun.toNat) (1 + k.begun.toNat) 0 c
  floor : Floor c.toView p.root [k.caller] (p.rootCell none :: (k.cells p ++ d.cells p))
  frames : c.frames = .loop (k.loop p) :: p.under
  signal : ∃ x, c.signal = .done x

/-- The fiber of a task runs, and holds some handles; `cells` are the fibers of tasks that wait. -/
structure AtWork (p : Station) (k : Bench) (front : Frame) (id : FiberId) (body : Option Body)
    (due lent : Nat) (cells : List Cell) (d : Dorm) (c : Scene) : Prop where
  valid : k.Valid
  accounts : front = .loopFiber (k.loop p) id ∨ front = .loopCallback (k.loop p) id
  hosts : Hosts p d (3 + k.begun.toNat + due) (1 + k.begun.toNat + lent) 1 c
  floor : Floor c.toView id [p.root, k.caller]
    (⟨id, .exec, body, 1, none⟩ :: p.rootCell (some (front :: p.under)) :: (k.cells p ++ cells))

/-- The run loop comes to a turn, with the work of a machine whose diary goes on from a former
one. -/
def Arrives (p : Station) (back : List Frame) (former : List SleepEvent) (d : Dorm)
    (log : List SleepEvent) (c : Scene) (now : Instant) : Prop :=
  ∃ k, k.back = back ∧ p.AtTurn k d c ∧ now = d.now ∧ d.log = former ++ log

variable {p : Station} {k : Bench} {d : Dorm} {c u : Scene} {front : Frame} {id : FiberId}
  {body : Option Body} {due lent : Nat} {cells : List Cell} {back : List Frame}
  {former log more : List SleepEvent} {now : Instant}

theorem Arrives.entered (h : p.Arrives back (former ++ log) d more c now) :
    p.Arrives back former d (log ++ more) c now := by
  obtain ⟨k, from', turn, same, entered⟩ := h
  exact ⟨k, from', turn, same, entered.trans (List.append_assoc ..)⟩

theorem AtTurn.arrives (h : p.AtTurn k d c) : p.Leads k.back c d.now (p.Arrives k.back d.log d) :=
  .here ⟨k, rfl, h, rfl, (List.append_nil _).symm⟩

/-- The fiber goes on; its frames and its signal do not matter. -/
theorem AtWork.told (h : p.AtWork k front id body due lent cells d c) (fs : List Frame) (s : Signal)
    (reports : List (String × Datum)) :
    p.AtWork k front id body due lent cells d
      { c with frames := fs, signal := s, reports := reports } :=
  { h with
    hosts := h.hosts.steady ⟨rfl, rfl, rfl, rfl, rfl, rfl, rfl⟩
    floor := h.floor.congr rfl rfl rfl }

/-- The fiber of a task is none of those that sleep. -/
theorem AtWork.new (h : p.AtWork k front id body due lent cells d c) {x : Cell} (mem : x ∈ cells) :
    x.id ≠ id := by
  have distinct := h.floor.distinct
  rw [List.map_cons, List.nodup_cons] at distinct
  refine fun same => distinct.1 (List.mem_map.mpr ⟨x, ?_, same⟩)
  exact List.mem_cons_of_mem _ (List.mem_append_right _ mem)

end Station

end Fibers.Script
