import Fibers.Proofs.Scheduler.Holding

/-!
Two workers and one fiber. A worker takes an entry and only then resumes its fiber; what keeps the
other workers away from a second entry of the same fiber is that the fiber is in execution. So from
the moment at which the entry is taken to the moment at which the resume marks the fiber, a second
entry is taken like any other one, and the check of the resume tells both workers the same. A fiber
that is queued once is taken once.
-/

namespace Fibers.Script

variable {w w₁ w₂ : World} {s : SchedulerId} {f : FiberId} {q : TaskQueue Body}
  {queued picked : Nat}

/-- Whether the entry is one of the fiber. -/
def QueueEntry.isOf (f : FiberId) (e : QueueEntry Body) : Bool := decide (e.task = .fiber f)

/-- The number of entries of a fiber. -/
def entriesOf (f : FiberId) (q : TaskQueue Body) : Nat := List.countP (QueueEntry.isOf f) q

/-- What happens while a fiber is not in execution: tasks are queued, workers look for work, and
anything else that leaves the queue alone. `queued` entries of the fiber come to the queue on the
way, and workers pick `picked` entries of it. -/
inductive Offstage (s : SchedulerId) (f : FiberId) (w : World) : Nat → Nat → World → Prop where
  | start (idle : w.isRunning f = false) : Offstage s f w 0 0 w
  | queues {queued picked : Nat} {w₁ : World} (h : Offstage s f w queued picked w₁)
      (entries : List (QueueEntry Body)) :
      Offstage s f w (queued + entriesOf f entries) picked ((enqueue s entries).on w₁).2
  | looks {queued picked : Nat} {w₁ w₂ : World} {e : Option (QueueEntry Body)}
      (h : Offstage s f w queued picked w₁) (worker : Nat)
      (found : (takeNext s worker).on w₁ = (.ok e, w₂)) :
      Offstage s f w queued (picked + entriesOf f e.toList) w₂
  | elsewhere {queued picked : Nat} {w₁ w₂ : World} (h : Offstage s f w queued picked w₁)
      (queue : w₂.queueOf s = w₁.queueOf s) (idle : w₂.isRunning f = false) :
      Offstage s f w queued picked w₂

theorem entriesOf_append (a b : TaskQueue Body) :
    entriesOf f (a ++ b) = entriesOf f a + entriesOf f b := List.countP_append

theorem entriesOf_eq_zero : entriesOf f q = 0 ↔ ∀ e ∈ q, e.task ≠ .fiber f := by
  simp only [entriesOf, List.countP_eq_zero, QueueEntry.isOf, decide_eq_true_eq, ne_eq]

/-- What is taken and what is left were in the queue. -/
theorem entriesOf_take (able : QueueEntry Body → Bool) :
    entriesOf f (q.eraseP able) + entriesOf f (q.find? able).toList = entriesOf f q := by
  cases found : q.find? able with
  | none =>
    have left : q.eraseP able = q :=
      List.eraseP_of_forall_not fun e mem => List.find?_eq_none.mp found e mem
    rw [left]
    rfl
  | some e =>
    have split := (perm_eraseP found).countP_eq (QueueEntry.isOf f)
    rw [entriesOf, entriesOf, entriesOf, split, ← List.singleton_append, List.countP_append,
      Nat.add_comm]
    rfl

theorem Untouched.isRunning (h : Untouched w w₁) (f : FiberId) :
    w₁.isRunning f = w.isRunning f := by
  rw [World.isRunning, World.isRunning, h.fibers]

/-- Where there is no scheduler there is nothing to take. -/
theorem takeNext_of_none (gone : w.queueOf s = none) (worker : Nat) :
    ∃ w', (takeNext s worker).on w = (.ok none, w') := by
  have absent : w.schedulers.get? s = none := Option.map_eq_none_iff.mp gone
  rw [takeNext, Act.on_bind_get, Act.on_bind_ok (schedulerRecord_on s w), absent]
  exact ⟨_, rfl⟩

/-- The entries of a fiber are only queued and picked. -/
theorem Offstage.conserved (h : Offstage s f w queued picked w₁) (known : w.queueOf s = some q) :
    w₁.isRunning f = false ∧
      ∃ q₁, w₁.queueOf s = some q₁ ∧ entriesOf f q₁ + picked = entriesOf f q + queued := by
  induction h with
  | start idle => exact ⟨idle, q, known, rfl⟩
  | @queues queued picked w₁ _ entries ih =>
    obtain ⟨idle, q₁, known₁, balance⟩ := ih
    obtain ⟨w₂, done, untouched, queue⟩ := enqueue_to known₁ entries
    rw [done]
    refine ⟨(untouched.isRunning f).trans idle, q₁ ++ entries, queue, ?_⟩
    rw [entriesOf_append]
    omega
  | @looks queued picked w₁ w₂ e _ worker found ih =>
    obtain ⟨idle, q₁, known₁, balance⟩ := ih
    obtain ⟨w₂', done, untouched, queue⟩ := takeNext_from known₁ worker
    rw [found] at done
    obtain ⟨same, rfl⟩ := Prod.mk.inj done
    obtain rfl := Except.ok.inj same
    have taken := entriesOf_take (f := f) (q := q₁) (TaskQueue.eligible w₁.isRunning worker)
    exact ⟨(untouched.isRunning f).trans idle, _, queue, by omega⟩
  | elsewhere _ queue idle ih =>
    obtain ⟨-, q₁, known₁, balance⟩ := ih
    exact ⟨idle, q₁, queue.trans known₁, balance⟩

/-- Whether a thread could resume the fiber now. -/
def World.passes (w : World) (i : ThreadId) (f : FiberId) : Prop :=
  ∃ t, w.fibers.resume { w with running := i }.thread.current f
    { w with running := i }.currentScheduler.isSome = .ok t

/-- Two threads that serve schedulers, and are not on the fiber, pass the check of a resume alike.
-/
theorem passes_alike {i j : ThreadId}
    (serves : ({ w with running := i } : World).currentScheduler.isSome =
      ({ w with running := j } : World).currentScheduler.isSome)
    (off : ({ w with running := i } : World).thread.current ≠ some f)
    (off' : ({ w with running := j } : World).thread.current ≠ some f) :
    w.passes i f ↔ w.passes j f := by
  unfold World.passes FiberTable.resume
  rw [serves]
  cases w.fibers.resumeFault? f ({ w with running := j } : World).currentScheduler.isSome with
  | some v => exact ⟨nofun, nofun⟩
  | none =>
    dsimp only
    rw [if_neg off, if_neg off']
    exact ⟨fun _ => ⟨_, rfl⟩, fun _ => ⟨_, rfl⟩⟩

/-- What the workers find after one of them took an entry of the fiber `f`. -/
structure Unclaimed (s : SchedulerId) (f : FiberId) (w : World) (q : TaskQueue Body) : Prop where
  idle : w.isRunning f = false
  queue : w.queueOf s = some q
  /-- An entry of the fiber is taken by the first worker that comes to it and to which it is not
  denied by its pin; the fiber is not marked by that. -/
  taken : ∀ worker before e after, q = before ++ e :: after → e.task = .fiber f →
    (∀ k, e.worker = some k → k = worker) →
    (∀ b ∈ before, TaskQueue.eligible w.isRunning worker b = false) →
    ∃ w', (takeNext s worker).on w = (.ok (some e), w') ∧ w'.isRunning f = false
  /-- Threads with a scheduler that are not on the fiber pass the check of its resume alike. -/
  alike : ∀ i j : ThreadId, ({ w with running := i } : World).currentScheduler.isSome = true →
    ({ w with running := j } : World).currentScheduler.isSome = true →
    ({ w with running := i } : World).thread.current ≠ some f →
    ({ w with running := j } : World).thread.current ≠ some f → (w.passes i f ↔ w.passes j f)

theorem unclaimed_of_idle (idle : w.isRunning f = false) (queue : w.queueOf s = some q) :
    Unclaimed s f w q := by
  refine ⟨idle, queue, ?_, ?_⟩
  · intro worker before e after split task pin passed
    obtain ⟨w', done, untouched, -⟩ := takeNext_from queue worker
    have able : TaskQueue.eligible w.isRunning worker e = true := by
      refine TaskQueue.eligible_iff.mpr ⟨pin, fun id same => ?_⟩
      obtain rfl := Task.fiber.inj (task.symm.trans same)
      exact idle
    have first : List.find? (TaskQueue.eligible w.isRunning worker) q = some e := by
      refine List.find?_eq_some_iff_append.mpr ⟨able, before, after, split, fun b mem => ?_⟩
      rw [passed b mem]
      rfl
    rw [first] at done
    exact ⟨w', done, (untouched.isRunning f).trans idle⟩
  · intro i j serves serves' off off'
    exact passes_alike (serves.trans serves'.symm) off off'

/-- After a worker took an entry of a fiber, and until the fiber is in execution, whatever happens
in between, another entry of it is taken like any other one, and both workers pass the check of the
resume alike. The entries of the fiber that are left and picked are those that it had and those that
were queued since; so a worker finds none if the fiber had but one and was not queued again. Once
the fiber is in execution, nobody takes an entry of it. -/
theorem second_entry_is_taken_unless_running {v : Nat} {e : QueueEntry Body}
    (known : w.queueOf s = some q) (took : (takeNext s v).on w = (.ok (some e), w₁))
    (task : e.task = .fiber f) (between : Offstage s f w₁ queued picked w₂) :
    (∃ q₂, Unclaimed s f w₂ q₂ ∧ entriesOf f q₂ + picked + 1 = entriesOf f q + queued) ∧
      (entriesOf f q = 1 → queued = 0 → ∀ worker e' w₃,
        (takeNext s worker).on w₂ = (.ok (some e'), w₃) → e'.task ≠ .fiber f) ∧
      ∀ w₃, w₃.isRunning f = true → ∀ worker e' w₄,
        (takeNext s worker).on w₃ = (.ok (some e'), w₄) → e'.task ≠ .fiber f := by
  obtain ⟨w₁', done, -, queue⟩ := takeNext_from known v
  rw [took] at done
  obtain ⟨same, rfl⟩ := Prod.mk.inj done
  have found := Except.ok.inj same
  have split := entriesOf_take (f := f) (q := q) (TaskQueue.eligible w.isRunning v)
  have one : entriesOf f [e] = 1 := by
    rw [entriesOf, List.countP_singleton, QueueEntry.isOf, decide_eq_true task, if_pos rfl]
  rw [← found, Option.toList_some, one] at split
  obtain ⟨idle, q₂, queue₂, balance⟩ := between.conserved queue
  refine ⟨⟨q₂, unclaimed_of_idle idle queue₂, by omega⟩, ?_, ?_⟩
  · intro once quiet worker e' w₃ taken
    obtain ⟨w₃', done, -, -⟩ := takeNext_from queue₂ worker
    rw [taken] at done
    have among := List.mem_of_find?_eq_some (Except.ok.inj (Prod.mk.inj done).1).symm
    exact entriesOf_eq_zero.mp (by omega) e' among
  · intro w₃ runs worker e' w₄ taken ours
    cases queue₃ : w₃.queueOf s with
    | none =>
      obtain ⟨w₄', nothing⟩ := takeNext_of_none queue₃ worker
      rw [taken] at nothing
      cases Except.ok.inj (Prod.mk.inj nothing).1
    | some q₃ =>
      obtain ⟨w₄', done, -, -⟩ := takeNext_from queue₃ worker
      rw [taken] at done
      have able := List.find?_some (Except.ok.inj (Prod.mk.inj done).1).symm
      have still := (TaskQueue.eligible_iff.mp able).2 f ours
      rw [runs] at still
      cases still

/-- A fiber that is queued twice for two workers, which have not been started. -/
def twiceScript : Program :=
  ⟨#[[.perform "sched_new"
        (.scheduler (.new "s" ⟨false, .empty, [.threads 2, .useCaller false]⟩ none)),
      .perform "spawn" (.fiber (.spawn "f" ⟨.block 1, none, none, false, none⟩)),
      .perform "schedule" (.scheduler (.schedule "s" (.fiber "f"))),
      .perform "schedule" (.scheduler (.schedule "s" (.fiber "f")))],
    []]⟩

def twiceQueued : World :=
  (World.start twiceScript .frozen .empty (Log.Settings.fresh.setLevel .off) true (some .full)
    "main").runUpTo 12

def twiceEntry : QueueEntry Body := ⟨.fiber ⟨1⟩, none⟩

theorem twiceQueued_queue : twiceQueued.queueOf 1 = some [twiceEntry, twiceEntry] := by
  decide +kernel

theorem twiceQueued_first (worker : Nat) (q : TaskQueue Body) :
    List.find? (TaskQueue.eligible twiceQueued.isRunning worker) (twiceEntry :: q) =
      some twiceEntry := by
  have idle : twiceQueued.isRunning ⟨1⟩ = false := by decide +kernel
  refine List.find?_cons_of_pos (TaskQueue.eligible_iff.mpr ⟨nofun, fun id same => ?_⟩)
  obtain rfl := Task.fiber.inj same
  exact idle

/-- The first worker has taken an entry, and the other one is left to the second worker. -/
theorem second_entry_of_twiceQueued : ∃ w₁ q,
    (takeNext 1 0).on twiceQueued = (.ok (some twiceEntry), w₁) ∧ Unclaimed 1 ⟨1⟩ w₁ q ∧
      entriesOf ⟨1⟩ q = 1 := by
  obtain ⟨w₁, took, untouched, -⟩ := takeNext_from twiceQueued_queue 0
  rw [twiceQueued_first] at took
  have idle : w₁.isRunning ⟨1⟩ = false := (untouched.isRunning _).trans (by decide +kernel)
  obtain ⟨⟨q, unclaimed, balance⟩, -⟩ :=
    second_entry_is_taken_unless_running twiceQueued_queue took rfl (.start idle)
  have both : entriesOf ⟨1⟩ [twiceEntry, twiceEntry] = 2 := by decide
  exact ⟨w₁, q, took, unclaimed, by omega⟩

/-- Both workers take the fiber before one of them resumes it, and no rule keeps either from doing
so. -/
theorem two_workers_take_one_fiber : ∃ w₁ w₂,
    (takeNext 1 0).on twiceQueued = (.ok (some twiceEntry), w₁) ∧
      (takeNext 1 1).on w₁ = (.ok (some twiceEntry), w₂) ∧ w₂.isRunning ⟨1⟩ = false ∧
      w₂.fibers.resumeFault? ⟨1⟩ true = none := by
  obtain ⟨w₁, took, untouched, queue⟩ := takeNext_from twiceQueued_queue 0
  rw [twiceQueued_first] at took
  have left : w₁.queueOf 1 = some [twiceEntry] := queue.trans (by decide +kernel)
  obtain ⟨w₂, took', untouched', -⟩ := takeNext_from left 1
  have same : w₁.isRunning = twiceQueued.isRunning := funext untouched.isRunning
  rw [same, twiceQueued_first] at took'
  have fibers : w₂.fibers = twiceQueued.fibers := untouched'.fibers.trans untouched.fibers
  refine ⟨w₁, w₂, took, took', ?_, ?_⟩
  · rw [World.isRunning, fibers]
    decide +kernel
  · rw [fibers]
    decide +kernel

end Fibers.Script
