import Fibers.Proofs.Scheduler.Roster
import Fibers.Proofs.Scheduler.Suspended
import Mathlib.Data.List.Perm.Basic

/-!
Where every task is. A `Docket` numbers the tasks that a scheduler accepted and says of each one at
which spot it is: in the queue, in the hands of a worker, suspended, or at its end; and it keeps the
stretches that workers ran of it, with what the fiber went on with and how it was left. `Filed` is
what holds of a world with a docket: every task is at one spot, the fiber of a task that waits goes
on where it was left, and what the workers hold is there.
-/

namespace Fibers.Script

/-- A task as it was accepted. -/
inductive Commission where
  | callback (body : Body)
  | fiber (id : FiberId) (rest : Rest)

/-- What a fiber goes on with that begins the task. -/
def Commission.start (f : FiberId) : Commission → Rest
  | callback body => ⟨[.fiberStart f], some body⟩
  | fiber _ rest => rest

/-- A stretch of a task: a worker resumed its fiber, which came back or did not so far. -/
structure Stretch where
  worker : Nat
  fiber : FiberId
  /-- The worker to which the entry was pinned that led to it. -/
  pinned : Option Nat
  begins : Rest
  ends : Option (FiberState × List Frame)

structure Assignment where
  commission : Commission
  /-- The worker to which the task was pinned when it was accepted. -/
  pinned : Option Nat
  /-- The stretches so far, last one first. -/
  course : List Stretch

namespace Assignment

/-- The state in which the task was left. -/
def left (a : Assignment) : Option FiberState := (a.course.head?.bind (·.ends)).map Prod.fst

/-- What a fiber goes on with that goes on with the task. -/
def next (a : Assignment) (f : FiberId) : Rest :=
  match a.course with
  | [] => a.commission.start f
  | c :: _ => ⟨(c.ends.map Prod.snd).getD [], none⟩

/-- Whether the fiber may be the one of the task. -/
def On (a : Assignment) (f : FiberId) : Prop :=
  match a.course, a.commission with
  | [], .callback _ => True
  | [], .fiber g _ => g = f
  | c :: _, _ => c.fiber = f

/-- The task has not begun, or was left to go on later. -/
def Lasts (a : Assignment) : Prop :=
  a.course = [] ∨ ∃ state, a.left = some state ∧ state.isResumable = true

end Assignment

/-- The stretch takes the task up where it was left, on its fiber. A pin holds for the stretch that
it was asked for, and an entry of a task that left to go on at once is pinned to nobody. -/
structure Stretch.Follows (c : Stretch) (a : Assignment) : Prop where
  lasts : a.Lasts
  on : a.On c.fiber
  begins : c.begins = a.next c.fiber
  picked : ∀ k, c.pinned = some k → c.worker = k
  first : a.course = [] → c.pinned = a.pinned
  again : a.left = some .ready → c.pinned = none

/-- Each of the stretches, last one first, takes the task up where the one before left it. -/
def Commission.Orderly (commission : Commission) (pinned : Option Nat) : List Stretch → Prop
  | [] => True
  | c :: past => commission.Orderly pinned past ∧ c.Follows ⟨commission, pinned, past⟩

def Assignment.Orderly (a : Assignment) : Prop := a.commission.Orderly a.pinned a.course

/-- Where a task is. -/
inductive Spot where
  /-- A callback waits in the queue or was taken out of it. -/
  | fresh (body : Body) (pin : Option Nat)
  /-- A fiber waits in the queue or was taken out of it. -/
  | waits (id : FiberId) (pin : Option Nat)
  /-- A worker resumed its fiber. -/
  | runs (id : FiberId)
  /-- Its fiber left to go on at once, and its worker has not queued it yet. -/
  | ready (id : FiberId)
  /-- Its fiber is on hold. -/
  | parked (id : FiberId)
  | ended

namespace Spot

def ofEntry (e : QueueEntry Body) : Spot :=
  match e.task with
  | .fiber id => waits id e.worker
  | .callback body => fresh body e.worker

def fiber? : Spot → Option FiberId
  | fresh _ _ | ended => none
  | waits id _ | runs id | ready id | parked id => some id

/-- The fiber of which the queue or a worker has a handle for the task. -/
def held? : Spot → Option FiberId
  | fresh _ _ | ended | parked _ => none
  | waits id _ | runs id | ready id => some id

end Spot

/-- What holds of a task at a spot. -/
def Spot.Sound (w : World) (a : Assignment) : Spot → Prop
  | fresh body pin => a.commission = .callback body ∧ a.course = [] ∧ pin = a.pinned
  | waits id pin =>
    a.Lasts ∧ a.On id ∧ (∃ state, state.isResumable = true ∧ w.Rests id state (a.next id)) ∧
      (a.course = [] → pin = a.pinned) ∧ (a.left = some .ready → pin = none)
  | runs id =>
    w.InHand id ∧ ∃ c past, a.course = c :: past ∧ c.fiber = id ∧ c.ends = none
  | ready id => a.On id ∧ a.left = some .ready ∧ w.Rests id .ready (a.next id)
  | parked id => a.On id ∧ a.left = some .hold ∧ (w.Gone id ∨ w.Rests id .hold (a.next id))
  | ended => ∃ state, a.left = some state ∧ state.isTerminal = true

/-- What a worker has in its hands. -/
inductive Grip where
  | free
  /-- It has taken an entry. -/
  | took (n : Nat) (e : QueueEntry Body)
  /-- It has resumed the fiber of a task, which is a fiber of its own if the task is a callback. -/
  | runs (n : Nat) (id : FiberId) (own : Bool)
  /-- The fiber came back to go on at once. -/
  | ready (n : Nat) (id : FiberId)
  /-- The fiber stands in the queue again. -/
  | owes
  /-- The fiber came back in a state, in which it does not go on at once. -/
  | left (id : FiberId) (own : Bool) (state : FiberState)
  /-- The entry is accounted for as well. -/
  | past (id : FiberId) (own : Bool) (state : FiberState)

namespace Grip

/-- The task that a worker has in its hands. -/
def spots : Grip → List (Nat × Spot)
  | free | owes | left .. | past .. => []
  | took n e => [(n, .ofEntry e)]
  | runs n id _ => [(n, .runs id)]
  | ready n id => [(n, .ready id)]

/-- The fiber of which a worker has a handle that is of no use for a task. -/
def loose : Grip → List FiberId
  | left id .. | past id .. => [id]
  | _ => []

/-- The fiber that has ended with its callback. -/
def spent : Grip → List FiberId
  | left id own state | past id own state => if own && state.isTerminal then [id] else []
  | _ => []

/-- Whether a worker has taken an entry and not accounted for it yet. -/
def isCounted : Grip → Bool
  | free | past .. => false
  | took .. | runs .. | ready .. | owes | left .. => true

end Grip

structure Hand where
  loop : Loop
  grip : Grip

/-- The fibers of which a worker has handles, besides that of its task. -/
def Hand.keeps (x : Hand) : List FiberId := x.loop.pool ++ x.loop.idleFiber :: x.grip.loose

/-- The fibers that a worker has for callbacks. -/
def Hand.stock (x : Hand) : List FiberId := x.loop.pool ++ x.grip.spent

structure Docket where
  crew : List Hand
  posts : List (Nat × QueueEntry Body)
  parked : List (Nat × FiberId)
  done : List Nat
  tasks : Nat → Assignment
  /-- The number of tasks that were accepted. -/
  count : Nat

namespace Docket

variable (D : Docket)

def empty : Docket := ⟨[], [], [], [], fun _ => ⟨.callback default, none, []⟩, 0⟩

/-- Where the tasks are. -/
def spots : List (Nat × Spot) :=
  D.crew.flatMap (·.grip.spots) ++ (D.posts.map (fun p => (p.1, .ofEntry p.2)) ++
    (D.parked.map (fun p => (p.1, .parked p.2)) ++ D.done.map fun n => (n, .ended)))

/-- The fibers of the tasks that have not ended. -/
def fibers : List FiberId := D.spots.filterMap (·.2.fiber?)

/-- The fibers that the workers have for callbacks. -/
def stock : List FiberId := D.crew.flatMap Hand.stock

/-- The fibers of which workers have handles that are of no use for a task. -/
def loose : List FiberId := D.crew.flatMap (·.grip.loose)

/-- The fibers of which the workers and the queue have handles, as often as they have one. -/
def held : List FiberId := D.crew.flatMap Hand.keeps ++ D.spots.filterMap (·.2.held?)

/-- The number of entries that were taken and are not accounted for yet. -/
def active : Nat := D.crew.countP (·.grip.isCounted)

/-- One worker more. -/
def hand (x : Hand) : Docket := { D with crew := x :: D.crew }

end Docket

variable {D E D' : Docket} {w w' v : World} {s : SchedulerId} {x : Hand} {f : FiberId}

theorem Docket.spots_hand (E : Docket) (x : Hand) :
    (E.hand x).spots = x.grip.spots ++ E.spots := by
  unfold Docket.spots
  exact List.append_assoc x.grip.spots _ _

theorem Docket.stock_hand (E : Docket) (x : Hand) : (E.hand x).stock = x.stock ++ E.stock := rfl

theorem Docket.fibers_hand (E : Docket) (x : Hand) :
    (E.hand x).fibers = x.grip.spots.filterMap (·.2.fiber?) ++ E.fibers := by
  rw [Docket.fibers, E.spots_hand, List.filterMap_append]
  rfl

/-- An entry that stands in the queue or does not. -/
theorem Docket.spots_post (E : Docket) {p : Nat × QueueEntry Body}
    {posts : List (Nat × QueueEntry Body)} (perm : posts.Perm (p :: E.posts)) :
    ({ E with posts := posts } : Docket).spots.Perm ((p.1, .ofEntry p.2) :: E.spots) := by
  refine List.Perm.trans ?_ List.perm_middle
  exact ((perm.map _).append_right _).append_left _

theorem Docket.spots_parked (E : Docket) {p : Nat × FiberId} {parked : List (Nat × FiberId)}
    (perm : parked.Perm (p :: E.parked)) :
    ({ E with parked := parked } : Docket).spots.Perm ((p.1, .parked p.2) :: E.spots) := by
  refine List.Perm.trans ?_ (List.perm_middle.append_left _ |>.trans List.perm_middle)
  exact (((perm.map _).append_right _).append_left _).append_left _

theorem Docket.spots_done (E : Docket) (n : Nat) :
    ({ E with done := n :: E.done } : Docket).spots.Perm ((n, .ended) :: E.spots) :=
  (((List.perm_middle.append_left _).trans List.perm_middle).append_left _).trans List.perm_middle

theorem Docket.held_hand (E : Docket) (x : Hand) (f : FiberId) :
    (E.hand x).held.count f =
      x.keeps.count f + (x.grip.spots.filterMap (·.2.held?)).count f + E.held.count f := by
  have keeps : (E.hand x).crew.flatMap Hand.keeps = x.keeps ++ E.crew.flatMap Hand.keeps := rfl
  unfold Docket.held
  rw [E.spots_hand, List.filterMap_append, keeps]
  simp only [List.count_append]
  omega

/-- The fiber has ended. -/
def World.Over (w : World) (f : FiberId) : Prop :=
  ∃ r, w.fibers.get? f = some r ∧ r.state.isTerminal = true

/-- The fiber has ended, and may be given another callback. -/
def World.Spent (w : World) (f : FiberId) : Prop :=
  ∃ r, w.fibers.get? f = some r ∧ r.state.isTerminal = true ∧ r.isMain = false

theorem World.Spent.past (h : w.Spent f) : w.Over f := by
  obtain ⟨r, hr, ended, _⟩ := h
  exact ⟨r, hr, ended⟩

/-- Others left the task at a spot alone. Of a fiber on hold they may have let go. -/
def Spot.Alone (w w' : World) : Spot → Prop
  | fresh _ _ | ended => True
  | waits id _ | ready id => Intact id w w'
  | runs id => w'.InHand id
  | parked id => Intact id w w' ∨ w'.fibers.get? id = none

theorem Spot.Sound.alone {a : Assignment} {p : Spot} (h : p.Sound w a) (fit : w.Fit)
    (ages : Ages w w') (alone : p.Alone w w') : p.Sound w' a := by
  cases p with
  | fresh _ _ | ended => exact h
  | waits id _ =>
    obtain ⟨lasts, on, ⟨state, resumable, rests⟩, pinned⟩ := h
    exact ⟨lasts, on, ⟨state, resumable, rests.spared alone⟩, pinned⟩
  | runs id => exact ⟨alone, h.2⟩
  | ready id => exact ⟨h.1, h.2.1, h.2.2.spared alone⟩
  | parked id =>
    refine ⟨h.1, h.2.1, ?_⟩
    rcases h.2.2 with gone | rests
    · exact .inl ⟨Nat.le_trans gone.1 ages.lastId, ages.gone id gone⟩
    · rcases alone with intact | lost
      · exact .inr (rests.spared intact)
      · obtain ⟨r, hr, _⟩ := rests.record
        have numbered := fit.staffed.numbered id r.standing (congrArg (Option.map _) hr)
        exact .inl ⟨Nat.le_trans numbered ages.lastId, lost⟩

/-- What holds of a world with a docket. -/
structure Filed (D : Docket) (w : World) : Prop where
  fit : w.Fit
  covered : ∀ f, D.held.count f ≤ w.fibers.handlesOf f
  /-- Every task is at one spot. -/
  numbers : (D.spots.map Prod.fst).Perm (List.range D.count)
  sound : ∀ p ∈ D.spots, p.2.Sound w (D.tasks p.1)
  orderly : ∀ n, (D.tasks n).Orderly
  /-- No fiber serves two tasks, or is to serve another one. -/
  apart : (D.stock ++ D.fibers).Nodup
  stock : ∀ f ∈ D.stock, w.Spent f
  loose : ∀ f ∈ D.loose, w.Over f ∨ f ∈ D.fibers
  picked : ∀ x ∈ D.crew, ∀ n e k, x.grip = .took n e → e.worker = some k → x.loop.worker = k

theorem Docket.stock_held (mem : f ∈ D.stock) : 0 < D.held.count f := by
  obtain ⟨x, hx, mem⟩ := List.mem_flatMap.mp mem
  refine List.count_pos_iff.mpr (List.mem_append_left _ (List.mem_flatMap.mpr ⟨x, hx, ?_⟩))
  rcases List.mem_append.mp mem with pooled | spent
  · exact List.mem_append_left _ pooled
  · refine List.mem_append_right _ (List.mem_cons_of_mem _ ?_)
    cases hg : x.grip with
    | left id own state | past id own state =>
      rw [hg] at spent
      change f ∈ (if own && state.isTerminal then [id] else []) at spent
      split at spent
      · exact spent
      · exact absurd spent List.not_mem_nil
    | _ =>
      rw [hg] at spent
      exact absurd spent List.not_mem_nil

theorem Docket.loose_held (mem : f ∈ D.loose) : 0 < D.held.count f := by
  obtain ⟨x, hx, mem⟩ := List.mem_flatMap.mp mem
  refine List.count_pos_iff.mpr (List.mem_append_left _ (List.mem_flatMap.mpr ⟨x, hx, ?_⟩))
  exact List.mem_append_right _ (List.mem_cons_of_mem _ mem)

/-- What a step has to do with the tasks that it does not touch. `old` and `new` are where the task
is that it touches, if it touches one. -/
structure Touches (D D' : Docket) (w w' : World) (old new others : List (Nat × Spot)) : Prop where
  before : D.spots.Perm (old ++ others)
  after : D'.spots.Perm (new ++ others)
  fit : w'.Fit
  ages : Ages w w'
  covered : ∀ f, D'.held.count f ≤ w'.fibers.handlesOf f
  numbers : (D'.spots.map Prod.fst).Perm (List.range D'.count)
  tasks : ∀ p ∈ others, D'.tasks p.1 = D.tasks p.1
  alone : ∀ p ∈ others, p.2.Alone w w'
  sound : ∀ p ∈ new, p.2.Sound w' (D'.tasks p.1)
  orderly : ∀ n, (D'.tasks n).Orderly
  apart : (D'.stock ++ D'.fibers).Nodup
  ends : ∀ f r, 0 < D'.held.count f → f ∉ new.filterMap (·.2.fiber?) → w.fibers.get? f = some r →
    r.state.isTerminal = true →
    ∃ r', w'.fibers.get? f = some r' ∧ r'.state = r.state ∧ r'.isMain = r.isMain
  stock : ∀ f ∈ D'.stock, f ∈ D.stock ∨ w'.Spent f
  loose : ∀ f ∈ D'.loose, f ∈ D.loose ∨ w'.Over f ∨ f ∈ new.filterMap (·.2.fiber?)
  moved : ∀ f ∈ old.filterMap (·.2.fiber?), w'.Over f ∨ f ∈ new.filterMap (·.2.fiber?)
  picked : ∀ x ∈ D'.crew, ∀ n e k, x.grip = .took n e → e.worker = some k → x.loop.worker = k

theorem Filed.step {old new others : List (Nat × Spot)} (h : Filed D w)
    (step : Touches D D' w w' old new others) : Filed D' w' where
  fit := step.fit
  covered := step.covered
  numbers := step.numbers
  sound p mem := by
    rcases List.mem_append.mp (step.after.mem_iff.mp mem) with here | there
    · exact step.sound p here
    · rw [step.tasks p there]
      have before := step.before.mem_iff.mpr (List.mem_append_right _ there)
      exact (h.sound p before).alone h.fit step.ages (step.alone p there)
  orderly := step.orderly
  apart := step.apart
  stock f mem := by
    rcases step.stock f mem with old | spent
    · obtain ⟨r, hr, ended, own⟩ := h.stock f old
      have off : f ∉ new.filterMap (·.2.fiber?) := by
        intro on
        refine (List.nodup_append.mp step.apart).2.2 f mem f ?_ rfl
        refine ((step.after.filterMap _).mem_iff).mpr ?_
        rw [List.filterMap_append]
        exact List.mem_append_left _ on
      obtain ⟨r', hr', state, main⟩ := step.ends f r (Docket.stock_held mem) off hr ended
      exact ⟨r', hr', by rw [state, ended], main.trans own⟩
    · exact spent
  loose f mem := by
    have new_mem : f ∈ new.filterMap (·.2.fiber?) → f ∈ D'.fibers := by
      intro on
      refine ((step.after.filterMap _).mem_iff).mpr ?_
      rw [List.filterMap_append]
      exact List.mem_append_left _ on
    rcases step.loose f mem with old | past | on
    · by_cases on : f ∈ new.filterMap (·.2.fiber?)
      · exact .inr (new_mem on)
      · rcases h.loose f old with ⟨r, hr, ended⟩ | serves
        · obtain ⟨r', hr', state, _⟩ := step.ends f r (Docket.loose_held mem) on hr ended
          exact .inl ⟨r', hr', by rw [state, ended]⟩
        · have serves := ((step.before.filterMap _).mem_iff).mp serves
          rw [List.filterMap_append] at serves
          rcases List.mem_append.mp serves with moved | other
          · exact (step.moved f moved).imp_right new_mem
          · refine .inr (((step.after.filterMap _).mem_iff).mpr ?_)
            rw [List.filterMap_append]
            exact List.mem_append_right _ other
    · exact .inl past
    · exact .inr (new_mem on)
  picked := step.picked

theorem Spot.Sound.alone_of_intact {a : Assignment} {p : Spot} (h : p.Sound w a)
    (intact : ∀ f, p.fiber? = some f → Intact f w w') : p.Alone w w' := by
  cases p with
  | fresh _ _ | ended => trivial
  | waits id _ | ready id => exact intact id rfl
  | runs id => exact h.1.spared (intact id rfl)
  | parked id => exact .inl (intact id rfl)

/-- Tasks change hands. -/
theorem Filed.shift (h : Filed D w) (same : Untouched w w') (spots : D'.spots.Perm D.spots)
    (tasks : D'.tasks = D.tasks) (count : D'.count = D.count)
    (covered : ∀ f, D'.held.count f ≤ w.fibers.handlesOf f)
    (stock : ∀ f, D'.stock.count f ≤ D.stock.count f) (loose : ∀ f ∈ D'.loose, f ∈ D.loose)
    (picked : ∀ x ∈ D'.crew, ∀ n e k, x.grip = .took n e → e.worker = some k →
      x.loop.worker = k) : Filed D' w' := by
  refine h.step (show Touches D D' w w' [] [] D.spots from ⟨.refl _, spots, h.fit.untouched same,
    .of_fibers same.fibers, fun f => ?_, ?_, fun p _ => by rw [tasks], fun p mem => ?_,
    fun p mem => absurd mem List.not_mem_nil, fun n => by rw [tasks]; exact h.orderly n, ?_,
    fun f r _ _ hr _ => ⟨r, by rw [same.fibers, hr], rfl, rfl⟩, fun f mem => .inl ?_,
    fun f mem => .inl (loose f mem), fun f mem => absurd mem List.not_mem_nil, picked⟩)
  · rw [same.fibers]
    exact covered f
  · rw [count]
    exact (spots.map _).trans h.numbers
  · exact (h.sound p mem).alone_of_intact fun f _ => .untouched same
  · refine List.nodup_iff_count_le_one.mpr fun f => ?_
    have once := List.nodup_iff_count_le_one.mp h.apart f
    rw [List.count_append] at once ⊢
    have fibers : D'.fibers.count f = D.fibers.count f := (spots.filterMap _).count_eq f
    have stock := stock f
    omega
  · exact List.count_pos_iff.mp (Nat.lt_of_lt_of_le (List.count_pos_iff.mpr mem) (stock f))

theorem Filed.untouched (h : Filed D w) (same : Untouched w w') : Filed D w' :=
  h.shift same (.refl _) rfl rfl h.covered (fun _ => Nat.le_refl _) (fun _ mem => mem) h.picked

/-- The order of the workers does not matter. -/
theorem Filed.perm (h : Filed D w) {crew : List Hand} (perm : D.crew.Perm crew) :
    Filed { D with crew := crew } w := by
  have spots : ({ D with crew := crew } : Docket).spots.Perm D.spots :=
    (perm.symm.flatMap_right _).append_right _
  refine h.shift ⟨rfl, rfl, rfl, rfl⟩ spots rfl rfl (fun f => ?_)
    (fun f => Nat.le_of_eq ((perm.symm.flatMap_right _).count_eq f))
    (fun f mem => (perm.symm.flatMap_right _).mem_iff.mp mem)
    fun x mem => h.picked x (perm.mem_iff.mpr mem)
  refine Nat.le_trans (Nat.le_of_eq ?_) (h.covered f)
  exact ((perm.symm.flatMap_right _).append (spots.filterMap _)).count_eq f

end Fibers.Script
