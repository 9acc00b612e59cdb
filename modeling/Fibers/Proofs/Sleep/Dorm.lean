import Fibers.Proofs.Sleep.Diary
import Fibers.Proofs.Timer.Sound
import Mathlib.Data.List.Sort

/-!
Tasks that only sleep, as a machine of its own. A queue holds the tasks that have not begun, the
wakes of sleeps that are due and the fibers that these have queued; the other sleeps stand in the
order of their alarms. Time passes only when the queue is empty, and then less than a millisecond
past the first alarm. Sleeps come back in the order of their alarms, each in its millisecond.
-/

namespace Fibers.Script

/-- A sleep that has not come back: its number among the sleeps of the diary, the verb of its call,
and the sleeps that its fiber has still to make, with their verbs. -/
structure Nap where
  sleep : Sleep
  number : Nat
  verb : String
  rest : List (String × Duration)

namespace Nap

def entry (x : Nap) : Sleep × Nat := (x.sleep, x.number)

/-- The entry of its timer in the ordered list. -/
def arming (x : Nap) : Arming := ⟨x.sleep.due, x.number + 1, x.number + 1⟩

/-- Puts a sleep in its place. -/
def insert (x : Nap) : List Nap → List Nap
  | [] => [x]
  | y :: rest => if x.arming.before y.arming then x :: y :: rest else y :: insert x rest

theorem insert_arming (x : Nap) (l : List Nap) :
    (insert x l).map arming = Arming.insert x.arming (l.map arming) := by
  induction l with
  | nil => rfl
  | cons y l ih =>
    simp only [insert, List.map_cons, Arming.insert]
    split
    · rfl
    · rw [List.map_cons, ih]

theorem insert_perm (x : Nap) (l : List Nap) : (insert x l).Perm (x :: l) := by
  induction l with
  | nil => exact .refl _
  | cons y l ih =>
    simp only [insert]
    split
    · exact .refl _
    · exact (ih.cons y).trans (.swap x y l)

end Nap

/-- A task that only sleeps: its fiber, if it has one of its own, the worker it is pinned to, its
block, and the sleeps that it is to make, with their verbs. -/
structure Chore where
  fiber? : Option FiberId
  worker : Option Nat
  block : Nat
  label : String
  naps : List (String × Duration)

/-- An entry of the queue: a task that has not begun, the wake of a sleep, or a sleep that its wake
has ended. -/
inductive Dorm.Job where
  | fresh (x : Chore)
  | wake (x : Nap)
  | risen (x : Nap)

namespace Dorm.Job

def risen? : Job → Option Nap
  | risen x => some x
  | _ => none

def wake? : Job → Option Nap
  | wake x => some x
  | _ => none

/-- The sleeps that some calls are still to make, by the label of the script. -/
def calls (label : String) (naps : List (String × Duration)) : List (String × Duration) :=
  naps.map fun n => (label, n.2)

/-- The sleeps that an entry of the queue has still to make. -/
def tasks : Job → List (String × Duration)
  | fresh x => calls x.label x.naps
  | wake x | risen x => calls x.sleep.label x.rest

/-- The number of steps that an entry of the queue may still take. -/
def work : Job → Nat
  | fresh x => 1 + 4 * x.naps.length
  | wake x => 3 + 4 * x.rest.length
  | risen x => 2 + 4 * x.rest.length

end Dorm.Job

/-- The machine: the clock, the queue, the sleeps that are not due, and the diary. -/
structure Dorm where
  now : Instant
  queue : List Dorm.Job
  alarms : List Nap
  log : List SleepEvent

namespace Dorm

/-- The sleeps whose timers have expired. -/
def called (d : Dorm) : List Nap := d.queue.filterMap Job.risen? ++ d.queue.filterMap Job.wake?

/-- The sleeps that have not come back, in the order in which they will. -/
def line (d : Dorm) : List Nap := d.called ++ d.alarms

/-- A fiber goes on: it calls for its next sleep or ends. -/
def goesOn (d : Dorm) (id : FiberId) (label : String) : List (String × Duration) → Dorm
  | [] => d
  | (verb, duration) :: rest =>
    { d with
      alarms := Nap.insert
        ⟨⟨id, label, duration, d.now, none⟩, (sleeps d.log).length, verb, rest⟩ d.alarms
      log := d.log ++ [.begun id label duration d.now] }

/-- The first entry is taken. -/
def taking (d : Dorm) (q : List Job) : Dorm := { d with queue := q }

/-- A sleep has come back. -/
def rising (d : Dorm) (q : List Job) (id : FiberId) : Dorm :=
  { d with queue := q, log := d.log ++ [.ended id d.now] }

/-- Time has passed, and the alarms that are due are queued. -/
def ringing (d : Dorm) (t : Instant) : Dorm :=
  { d with
    now := t
    queue := (d.alarms.filter fun x => x.sleep.due ≤ t).map .wake
    alarms := d.alarms.filter fun x => t < x.sleep.due }

/-- A step of the machine. -/
inductive Step : Dorm → Dorm → Prop where
  | begins {d : Dorm} {x : Chore} {q : List Job} (id : FiberId) (queue : d.queue = .fresh x :: q)
      (new : ∀ y ∈ d.line, y.sleep.fiber ≠ id) :
    Step d ((d.taking q).goesOn id x.label x.naps)
  | wakes {d : Dorm} {x : Nap} {q : List Job} (queue : d.queue = .wake x :: q) :
    Step d (d.taking (q ++ [.risen x]))
  | rises {d : Dorm} {x : Nap} {q : List Job} (queue : d.queue = .risen x :: q) :
    Step d ((d.rising q x.sleep.fiber).goesOn x.sleep.fiber x.sleep.label x.rest)
  | rings {d : Dorm} {t : Instant} (queue : d.queue = []) (later : d.now ≤ t)
      (inTime : ∀ x ∈ d.alarms, t < x.sleep.due + Duration.ofMillis 1)
      (due : ∃ x ∈ d.alarms, x.sleep.due ≤ t) : Step d (d.ringing t)

/-- The sleeps that are still to be made. -/
def todo (d : Dorm) : List (String × Duration) :=
  d.queue.flatMap Job.tasks ++ d.alarms.flatMap fun x => Job.calls x.sleep.label x.rest

/-- The number of steps that may still be taken. -/
def work (d : Dorm) : Nat :=
  (d.queue.map Job.work).sum + (d.alarms.map fun x => 4 + 4 * x.rest.length).sum

theorem goesOn_todo (d : Dorm) (id : FiberId) (label : String) (naps : List (String × Duration)) :
    ((sleeps (d.goesOn id label naps).log).map Sleep.task ++ (d.goesOn id label naps).todo).Perm
      ((sleeps d.log).map Sleep.task ++ (Job.calls label naps ++ d.todo)) := by
  cases naps with
  | nil => exact .refl _
  | cons nap rest =>
    have alarms := (Nap.insert_perm ⟨⟨id, label, nap.2, d.now, none⟩, (sleeps d.log).length, nap.1,
      rest⟩ d.alarms).flatMap_right fun x => Job.calls x.sleep.label x.rest
    refine List.perm_iff_count.mpr fun x => ?_
    have alarms := alarms.count_eq x
    simp only [goesOn, todo, sleeps_begun, Job.calls, List.map_append, List.map_cons, List.map_nil,
      List.flatMap_cons, List.count_append, List.count_cons, List.count_nil, Sleep.task]
      at alarms ⊢
    omega

theorem goesOn_work (d : Dorm) (id : FiberId) (label : String) (naps : List (String × Duration)) :
    (d.goesOn id label naps).work = d.work + 4 * naps.length := by
  cases naps with
  | nil => rfl
  | cons nap rest =>
    have alarms := ((Nap.insert_perm ⟨⟨id, label, nap.2, d.now, none⟩, (sleeps d.log).length,
      nap.1, rest⟩ d.alarms).map fun x => 4 + 4 * x.rest.length).sum_nat
    simp only [goesOn, work, alarms, List.map_cons, List.sum_cons, List.length_cons]
    omega

/-- The sleeps that are due and the others are all those that have an alarm. -/
theorem ringing_perm (d : Dorm) (t : Instant) :
    ((d.alarms.filter fun x => decide (x.sleep.due ≤ t)) ++
      d.alarms.filter fun x => decide (t < x.sleep.due)).Perm d.alarms := by
  have split := List.filter_append_perm (fun x : Nap => decide (x.sleep.due ≤ t)) d.alarms
  simpa only [← decide_not, Nat.not_le] using split

variable {d d' : Dorm}

/-- No call is lost and none is made twice. -/
theorem Step.todo (h : Step d d') :
    ((sleeps d'.log).map Sleep.task ++ d'.todo).Perm
      ((sleeps d.log).map Sleep.task ++ d.todo) := by
  cases h with
  | begins id queue =>
    refine (goesOn_todo _ id _ _).trans ?_
    rw [Dorm.todo, Dorm.todo, queue, List.flatMap_cons, List.append_assoc]
    exact .refl _
  | wakes queue =>
    refine List.Perm.append_left _ ?_
    rw [Dorm.todo, Dorm.todo, queue, taking, List.flatMap_cons]
    refine List.Perm.append_right _ ?_
    rw [List.flatMap_append, List.flatMap_singleton]
    exact List.perm_append_comm
  | @rises x q queue =>
    refine (goesOn_todo _ _ _ _).trans ?_
    have same : (sleeps (d.rising q x.sleep.fiber).log).map Sleep.task =
        (sleeps d.log).map Sleep.task := by
      rw [rising, sleeps_ended, List.map_map]
      exact List.map_congr_left fun s _ => Sleep.task_back _ _ s
    rw [same, Dorm.todo, Dorm.todo, queue, List.flatMap_cons, List.append_assoc]
    exact .refl _
  | @rings t queue =>
    refine List.Perm.append_left _ ?_
    have due := ringing_perm d t
    have tasks := due.flatMap_right fun x => Job.calls x.sleep.label x.rest
    rw [List.flatMap_append] at tasks
    simp only [Dorm.todo, queue, ringing, List.flatMap_map, List.flatMap_nil, List.nil_append]
    exact tasks

/-- Each step leaves fewer of them. -/
theorem Step.work_lt (h : Step d d') : d'.work < d.work := by
  cases h with
  | begins id queue =>
    rw [goesOn_work]
    simp only [work, queue, taking, List.map_cons, List.sum_cons, Job.work]
    omega
  | wakes queue =>
    simp only [work, queue, taking, List.map_append, List.map_cons, List.map_nil, List.sum_append,
      List.sum_cons, List.sum_nil, Job.work]
    omega
  | rises queue =>
    rw [goesOn_work]
    simp only [work, queue, rising, List.map_cons, List.sum_cons, Job.work]
    omega
  | @rings t queue later inTime due =>
    have all := ((ringing_perm d t).map fun x => 4 + 4 * x.rest.length).sum_nat
    have some : 0 < (d.alarms.filter fun x => decide (x.sleep.due ≤ t)).length := by
      obtain ⟨x, mem, due⟩ := due
      exact List.length_pos_iff.mpr (List.ne_nil_of_mem
        (List.mem_filter.mpr ⟨mem, decide_eq_true due⟩))
    have less : ∀ l : List Nap, (l.map fun x => 4 + 4 * x.rest.length).sum =
        ((l.map Job.wake).map Job.work).sum + l.length := by
      intro l
      induction l with
      | nil => rfl
      | cons x l ih =>
        simp only [List.map_cons, List.sum_cons, List.length_cons, ih, Job.work]
        omega
    rw [List.map_append, List.sum_append, less] at all
    simp only [work, queue, ringing, List.map_nil, List.sum_nil]
    omega

/-- The earlier alarm comes first, then the earlier call. -/
def Sooner (a b : Sleep × Nat) : Prop := a.1.due < b.1.due ∨ a.1.due = b.1.due ∧ a.2 < b.2

theorem before_iff (x y : Nap) : x.arming.before y.arming = true ↔ Sooner x.entry y.entry := by
  rw [Arming.before_iff]
  simp only [Nap.arming, Sooner, Nap.entry, Nat.add_lt_add_iff_right]

/-- Sleeps are over, due or ahead in the order of their alarms, and none is late. `done` are those
that are over, in the order in which they came back. -/
structure Sound (d : Dorm) (done : List (Sleep × Nat)) : Prop where
  entries : (done ++ d.line.map Nap.entry).Perm (sleeps d.log).zipIdx
  order : (done ++ d.line.map Nap.entry).Pairwise Sooner
  endings : endings d.log = done.map fun e => (e.1.fiber, e.1.woken)
  exact : ∀ e ∈ done, e.1.IsExact
  elapsed : ∀ e ∈ done, e.1.due ≤ d.now
  called : ∀ x ∈ d.called, x.sleep.due ≤ d.now
  inTime : ∀ x ∈ d.line, d.now < x.sleep.due + Duration.ofMillis 1
  pending : ∀ x ∈ d.line, x.sleep.woken = none
  distinct : (d.line.map fun x => x.sleep.fiber).Nodup

variable {done : List (Sleep × Nat)} {q : List Job} {id : FiberId} {x : Nap}

/-- The numbers are those of the calls so far. -/
theorem Sound.numbered (h : d.Sound done) :
    ∀ e ∈ done ++ d.line.map Nap.entry, e.2 < (sleeps d.log).length := by
  intro e mem
  exact (List.mem_zipIdx' (h.entries.mem_iff.mp mem)).1

/-- A step that does not concern the sleeps. -/
theorem Sound.taking (h : d.Sound done) (called : (d.taking q).called = d.called) :
    (d.taking q).Sound done := by
  have line : (d.taking q).line = d.line := congrArg (· ++ d.alarms) called
  exact ⟨line ▸ h.entries, line ▸ h.order, h.endings, h.exact, h.elapsed, called ▸ h.called,
    line ▸ h.inTime, line ▸ h.pending, line ▸ h.distinct⟩

/-- A sleep that is called for now comes after those that are over or due. -/
theorem Sound.before_new (h : d.Sound done) (begun : x.sleep.begun = d.now)
    (number : x.number = (sleeps d.log).length) :
    ∀ e ∈ done ++ d.called.map Nap.entry, Sooner e x.entry := by
  intro e mem
  have early : e.1.due ≤ d.now := by
    rcases List.mem_append.mp mem with mem | mem
    · exact h.elapsed e mem
    · obtain ⟨y, member, rfl⟩ := List.mem_map.mp mem
      exact h.called y member
  have earlier : e.2 < x.number := by
    rw [number]
    refine h.numbered e ?_
    rw [Dorm.line, List.map_append, ← List.append_assoc]
    exact List.mem_append_left _ mem
  have late : d.now ≤ x.sleep.due := begun ▸ Nat.le_add_right x.sleep.begun x.sleep.duration
  rcases Nat.lt_or_eq_of_le (Nat.le_trans early late) with less | same
  · exact .inl less
  · exact .inr ⟨same, earlier⟩

/-- A sleep is put in its place among the alarms. -/
theorem insert_sooner {alarms : List Nap} (sorted : (alarms.map Nap.entry).Pairwise Sooner)
    (fresh : ∀ y ∈ alarms, y.number ≠ x.number) :
    ((Nap.insert x alarms).map Nap.entry).Pairwise Sooner := by
  have placed : Arming.Sorted ((Nap.insert x alarms).map Nap.arming) := by
    rw [Nap.insert_arming]
    refine Arming.insert_sorted ?_ fun a mem => ?_
    · rw [List.pairwise_map] at sorted
      exact List.pairwise_map.mpr (sorted.imp fun sooner => (before_iff _ _).mpr sooner)
    · obtain ⟨y, member, rfl⟩ := List.mem_map.mp mem
      exact fun same => fresh y member (Nat.succ.inj same).symm
  exact List.pairwise_map.mpr ((List.pairwise_map.mp placed).imp (before_iff _ _).mp)

/-- A fiber that does not sleep calls for its next sleep or ends. -/
theorem Sound.goesOn (h : d.Sound done) (new : ∀ y ∈ d.line, y.sleep.fiber ≠ id) (label : String)
    (naps : List (String × Duration)) : (d.goesOn id label naps).Sound done := by
  cases naps with
  | nil => exact h
  | cons nap rest =>
    obtain ⟨verb, duration⟩ := nap
    let x : Nap :=
      ⟨⟨id, label, duration, d.now, none⟩, (sleeps d.log).length, verb, rest⟩
    let d' := d.goesOn id label ((verb, duration) :: rest)
    have line : d'.line.Perm (x :: d.line) :=
      ((Nap.insert_perm x d.alarms).append_left d.called).trans List.perm_middle
    have order := h.order
    rw [Dorm.line, List.map_append, ← List.append_assoc, List.pairwise_append] at order
    obtain ⟨before, ahead, across⟩ := order
    have fresh : ∀ y ∈ d.alarms, y.number ≠ x.number := fun y member =>
      Nat.ne_of_lt (h.numbered y.entry (List.mem_append_right _
        (List.mem_map_of_mem (List.mem_append_right _ member))))
    refine ⟨?_, ?_, ?_, h.exact, h.elapsed, h.called, ?_, ?_, ?_⟩
    · rw [Dorm.goesOn, sleeps_begun, List.zipIdx_append, Nat.zero_add]
      refine (((line.map Nap.entry).append_left done).trans List.perm_middle).trans ?_
      exact (h.entries.cons x.entry).trans (List.perm_append_singleton ..).symm
    · change (done ++ (d.called ++ Nap.insert x d.alarms).map Nap.entry).Pairwise Sooner
      rw [List.map_append, ← List.append_assoc, List.pairwise_append]
      refine ⟨before, insert_sooner ahead fresh, fun e mem e' mem' => ?_⟩
      obtain ⟨y, member, rfl⟩ := List.mem_map.mp mem'
      rcases List.mem_cons.mp ((Nap.insert_perm x d.alarms).mem_iff.mp member) with rfl | member
      · exact h.before_new rfl rfl e mem
      · exact across e mem y.entry (List.mem_map_of_mem member)
    · rw [Dorm.goesOn, endings_begun]
      exact h.endings
    · intro y mem
      rcases List.mem_cons.mp (line.mem_iff.mp mem) with rfl | mem
      · exact Nat.lt_of_le_of_lt (Nat.le_add_right d.now duration)
          (Nat.lt_add_of_pos_right (by decide))
      · exact h.inTime y mem
    · intro y mem
      rcases List.mem_cons.mp (line.mem_iff.mp mem) with rfl | mem
      · rfl
      · exact h.pending y mem
    · rw [(line.map fun y => y.sleep.fiber).nodup_iff, List.map_cons, List.nodup_cons]
      refine ⟨fun mem => ?_, h.distinct⟩
      obtain ⟨y, member, same⟩ := List.mem_map.mp mem
      exact new y member same

/-- The first sleep of the line comes back. -/
theorem Sound.rising (h : d.Sound done) (queue : d.queue = .risen x :: q) :
    ∃ s, (d.rising q x.sleep.fiber).Sound (done ++ [(s, x.number)]) ∧
      ∀ y ∈ (d.rising q x.sleep.fiber).line, y.sleep.fiber ≠ x.sleep.fiber := by
  let back : Sleep × Nat → Sleep × Nat := Prod.map (Sleep.back x.sleep.fiber d.now) id
  let d' := d.rising q x.sleep.fiber
  have line : d.line = x :: d'.line := by
    rw [Dorm.line, Dorm.called, queue]
    rfl
  have mem : x ∈ d.line := line ▸ List.mem_cons_self
  have apart : ∀ y ∈ d'.line, y.sleep.fiber ≠ x.sleep.fiber := by
    have distinct := h.distinct
    rw [line, List.map_cons, List.nodup_cons] at distinct
    exact fun y member same => distinct.1 (List.mem_map.mpr ⟨y, member, same⟩)
  have ended : done.map back = done := by
    refine (List.map_congr_left fun e member => ?_).trans (List.map_id done)
    obtain ⟨t, woken, -⟩ := h.exact e member
    exact Prod.ext (Sleep.back_over _ _ (by rw [woken]; exact Option.some_ne_none t)) rfl
  have others : (d'.line.map Nap.entry).map back = d'.line.map Nap.entry := by
    rw [List.map_map]
    refine List.map_congr_left fun y member => ?_
    exact Prod.ext (Sleep.back_other _ (apart y member)) rfl
  have own : back x.entry = ({ x.sleep with woken := some d.now }, x.number) :=
    Prod.ext (Sleep.back_own _ (h.pending x mem)) rfl
  have all : (done ++ d.line.map Nap.entry).map back =
      (done ++ [({ x.sleep with woken := some d.now }, x.number)]) ++ d'.line.map Nap.entry := by
    rw [line, List.map_append, List.map_cons, List.map_cons, ended, others, own,
      List.append_assoc, List.singleton_append]
  have same : ∀ e, (back e).1.due = e.1.due := fun e => Sleep.due_back _ _ e.1
  have rest := fun y member => h.pending y (line ▸ List.mem_cons_of_mem x member)
  refine ⟨{ x.sleep with woken := some d.now }, ⟨?_, ?_, ?_, ?_, ?_, ?_, ?_, rest, ?_⟩, apart⟩
  · rw [← all]
    have log : sleeps d'.log = (sleeps d.log).map (Sleep.back x.sleep.fiber d.now) :=
      sleeps_ended ..
    rw [log, List.zipIdx_map]
    exact h.entries.map back
  · rw [← all, List.pairwise_map]
    refine h.order.imp fun {a b} sooner => ?_
    change (back a).1.due < (back b).1.due ∨ (back a).1.due = (back b).1.due ∧ a.2 < b.2
    rw [same, same]
    exact sooner
  · have log : Script.endings d'.log = Script.endings d.log ++ [(x.sleep.fiber, some d.now)] :=
      endings_ended ..
    rw [log, h.endings, List.map_append]
    rfl
  · refine List.forall_mem_append.mpr ⟨h.exact, List.forall_mem_singleton.mpr ?_⟩
    exact ⟨d.now, rfl, h.called x (by rw [Dorm.called, queue]; exact List.mem_cons_self),
      h.inTime x mem⟩
  · refine List.forall_mem_append.mpr ⟨h.elapsed, List.forall_mem_singleton.mpr ?_⟩
    exact h.called x (by rw [Dorm.called, queue]; exact List.mem_cons_self)
  · intro y member
    refine h.called y ?_
    rw [Dorm.called, queue]
    exact List.mem_cons_of_mem x member
  · exact fun y member => h.inTime y (line ▸ List.mem_cons_of_mem x member)
  · have distinct := h.distinct
    rw [line, List.map_cons] at distinct
    exact distinct.of_cons

/-- In a list in order, what is due stands before the rest. -/
theorem filter_due {l : List Nap} (order : (l.map Nap.entry).Pairwise Sooner) (t : Instant) :
    (l.filter fun x => decide (x.sleep.due ≤ t)) ++ (l.filter fun x => decide (t < x.sleep.due)) =
      l := by
  induction l with
  | nil => rfl
  | cons x l ih =>
    rw [List.map_cons, List.pairwise_cons] at order
    by_cases due : x.sleep.due ≤ t
    · have early : ¬t < x.sleep.due := Nat.not_lt.mpr due
      simp only [List.filter_cons, due, early, decide_true, decide_false, if_true,
        Bool.false_eq_true, if_false, List.cons_append, ih order.2]
    · have late : ∀ y ∈ x :: l, t < y.sleep.due := by
        refine List.forall_mem_cons.mpr ⟨Nat.lt_of_not_le due, fun y mem => ?_⟩
        refine Nat.lt_of_lt_of_le (Nat.lt_of_not_le due) ?_
        rcases order.1 y.entry (List.mem_map_of_mem mem) with less | ⟨same, -⟩
        · exact Nat.le_of_lt less
        · exact Nat.le_of_eq same
      rw [List.filter_eq_nil_iff.mpr fun y mem => by simpa using late y mem,
        List.filter_eq_self.mpr fun y mem => decide_eq_true (late y mem), List.nil_append]

/-- Time passes, and the alarms that are due ring. -/
theorem Sound.ringing (h : d.Sound done) (queue : d.queue = []) {t : Instant} (later : d.now ≤ t)
    (inTime : ∀ x ∈ d.alarms, t < x.sleep.due + Duration.ofMillis 1) :
    (d.ringing t).Sound done := by
  have line : d.line = d.alarms := by
    rw [Dorm.line, Dorm.called, queue]
    rfl
  have order := (List.pairwise_append.mp h.order).2.1
  have called : (d.ringing t).called = d.alarms.filter fun x => decide (x.sleep.due ≤ t) := by
    rw [Dorm.called, Dorm.ringing, List.filterMap_map, List.filterMap_map]
    simp [Function.comp_def, Job.risen?, Job.wake?]
  have line' : (d.ringing t).line = d.line := by
    rw [line] at order ⊢
    rw [Dorm.line, called]
    exact filter_due order t
  refine ⟨line' ▸ h.entries, line' ▸ h.order, h.endings, h.exact,
    fun e mem => Nat.le_trans (h.elapsed e mem) later, fun x mem => ?_, ?_, line' ▸ h.pending,
    line' ▸ h.distinct⟩
  · rw [called] at mem
    exact of_decide_eq_true (List.mem_filter.mp mem).2
  · rw [line', line]
    exact inTime

/-- A step keeps the order. -/
theorem Sound.step (h : d.Sound done) (step : Step d d') : ∃ done', d'.Sound done' := by
  cases step with
  | @begins x q id queue new =>
    have called : (d.taking q).called = d.called := by
      rw [Dorm.called, Dorm.called, queue]
      rfl
    have line : (d.taking q).line = d.line := congrArg (· ++ d.alarms) called
    exact ⟨done, (h.taking called).goesOn (line ▸ new) _ _⟩
  | @wakes x q queue =>
    refine ⟨done, h.taking ?_⟩
    rw [Dorm.called, Dorm.called, queue, Dorm.taking]
    simp [List.filterMap_cons, Job.risen?, Job.wake?]
  | rises queue =>
    obtain ⟨s, sound, new⟩ := h.rising queue
    exact ⟨_, sound.goesOn new _ _⟩
  | rings queue later inTime => exact ⟨done, h.ringing queue later inTime⟩

/-- Before the first call nobody sleeps. -/
theorem sound_start (now : Instant) (chores : List Chore) :
    Sound ⟨now, chores.map .fresh, [], []⟩ [] := by
  have called : called ⟨now, chores.map .fresh, [], []⟩ = [] := by
    rw [Dorm.called, List.filterMap_map, List.filterMap_map]
    simp [Function.comp_def, Job.risen?, Job.wake?]
  have line : line ⟨now, chores.map .fresh, [], []⟩ = [] := by
    rw [Dorm.line, called]
    rfl
  refine ⟨?_, ?_, rfl, nofun, nofun, ?_, ?_, ?_, ?_⟩
  · rw [line]
    exact .refl _
  · rw [line]
    exact .nil
  · rw [called]
    exact nofun
  · rw [line]
    exact nofun
  · rw [line]
    exact nofun
  · rw [line]
    exact .nil

theorem zipIdxLE_iff (a b : Sleep × Nat) :
    List.zipIdxLE (fun a b => decide (a.due ≤ b.due)) a b = true ↔
      a.1.due < b.1.due ∨ a.1.due = b.1.due ∧ a.2 ≤ b.2 := by
  simp only [List.zipIdxLE, decide_eq_true_eq]
  unfold Instant
  split
  · split
    · simp only [decide_eq_true_eq]
      omega
    · simp only [true_iff]
      omega
  · simp only [Bool.false_eq_true, false_iff]
    omega

/-- Once nobody sleeps, each sleep was exact, and they came back in the order of their alarms,
those of one moment in the order of their calls. -/
theorem Sound.ended (h : d.Sound done) (nobody : d.line = []) :
    (∀ s ∈ sleeps d.log, s.IsExact) ∧
      Script.endings d.log =
        ((sleeps d.log).mergeSort fun a b => decide (a.due ≤ b.due)).map
          fun s => (s.fiber, s.woken) := by
  have entries := h.entries
  have order := h.order
  rw [nobody, List.map_nil, List.append_nil] at entries order
  constructor
  · intro s mem
    obtain ⟨e, member, rfl⟩ : ∃ e ∈ done, e.1 = s := by
      rw [← List.zipIdx_map_fst 0 (sleeps d.log), ← (entries.map Prod.fst).mem_iff] at mem
      exact List.mem_map.mp mem
    exact h.exact e member
  · let le : Sleep → Sleep → Bool := fun a b => decide (a.due ≤ b.due)
    have sorted : (sleeps d.log).zipIdx.mergeSort (List.zipIdxLE le) = done := by
      have perm := (List.mergeSort_perm (sleeps d.log).zipIdx (List.zipIdxLE le)).trans entries.symm
      refine perm.eq_of_pairwise (fun a b mem mem' ab ba => ?_)
        (List.pairwise_mergeSort (List.zipIdxLE_trans fun a b c => ?_)
          (List.zipIdxLE_total fun a b => ?_) _)
        (order.imp fun {a b} sooner => (zipIdxLE_iff a b).mpr (sooner.imp_right fun same =>
          ⟨same.1, Nat.le_of_lt same.2⟩))
      · have number : a.2 = b.2 := by
          have ab := (zipIdxLE_iff a b).mp ab
          have ba := (zipIdxLE_iff b a).mp ba
          unfold Instant at ab ba
          omega
        have first := List.mem_zipIdx' (List.mem_mergeSort.mp mem)
        have second := List.mem_zipIdx' (entries.mem_iff.mp mem')
        refine Prod.ext ?_ number
        rw [first.2, second.2]
        simp only [number]
      · simp only [le, decide_eq_true_eq]
        exact Nat.le_trans
      · simp only [le, Bool.or_eq_true, decide_eq_true_eq]
        exact Nat.le_total ..
    rw [h.endings, ← List.mergeSort_zipIdx, List.map_map]
    change _ = ((sleeps d.log).zipIdx.mergeSort (List.zipIdxLE le)).map _
    rw [sorted]
    rfl

end Dorm

end Fibers.Script
