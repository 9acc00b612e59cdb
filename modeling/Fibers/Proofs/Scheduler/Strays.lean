import Fibers.Proofs.Scheduler.Pins
import Fibers.Proofs.Scheduler.RegularRuns

/-!
Entries that no worker takes. Whatever a program does, each entry of a queue may be taken by one of
the workers of its scheduler, with one exception: a fiber that switches to a scheduler is queued for
the worker that it names, whether there is one or not. Such an entry is passed over by all workers,
and as long as it is there the run loops do not end.
-/

namespace Fibers.Script

variable {p : Program} {w : World} {s : SchedulerId} {x : SchedulerRecord} {e : QueueEntry Body}

/-- One of the workers may take the entry, once its fiber is not in execution. -/
def Runnable (x : SchedulerRecord) (e : QueueEntry Body) : Prop :=
  ∃ worker < x.config.threads, ∀ running : FiberId → Bool,
    (∀ id, e.task = .fiber id → running id = false) → TaskQueue.eligible running worker e = true

/-- The entry is that of a fiber that switched to an index which no worker has. -/
structure Stray (p : Program) (x : SchedulerRecord) (e : QueueEntry Body) : Prop where
  switched : ∃ id k, e = ⟨.fiber id, some k⟩ ∧ x.config.threads ≤ k ∧ p.SwitchesTo k
  /-- Whichever worker looks for work, the entry stays in the queue. -/
  stays : ∀ (running : FiberId → Bool) worker, worker < x.config.threads →
    (x.shared.take running worker).entry ≠ some e ∧ e ∈ (x.shared.take running worker).shared.queue
  /-- The run loops may not end. -/
  holds : x.shared.isDone = false

/-- An entry of a regular world that is free, or pinned to a worker, is runnable. -/
theorem runnable_of_pin (workers : 0 < x.config.threads)
    (pin : ∀ k, e.worker = some k → k < x.config.threads) : Runnable x e := by
  cases pinned : e.worker with
  | none =>
    refine ⟨0, workers, fun running idle => TaskQueue.eligible_iff.mpr ⟨fun k named => ?_, idle⟩⟩
    rw [pinned] at named
    cases named
  | some k =>
    refine ⟨k, pin k pinned, fun running idle => ?_⟩
    refine TaskQueue.eligible_iff.mpr ⟨fun j named => ?_, idle⟩
    rw [pinned] at named
    exact (Option.some.inj named).symm

theorem stray_of_pin {id : FiberId} {k : Nat} (mem : ⟨.fiber id, some k⟩ ∈ x.shared.queue)
    (out : x.config.threads ≤ k) (named : p.SwitchesTo k) : Stray p x ⟨.fiber id, some k⟩ := by
  refine ⟨⟨id, k, rfl, out, named⟩, fun running worker known => ?_, ?_⟩
  · have unable : ¬TaskQueue.eligible running worker (⟨.fiber id, some k⟩ : QueueEntry Body) := by
      intro able
      have same := (TaskQueue.eligible_iff.mp able).1 k rfl
      omega
    obtain ⟨entry, rest⟩ := TaskQueue.scan_spec running worker false x.shared.queue
    constructor
    · intro taken
      exact unable (List.find?_some (entry.symm.trans taken))
    · change _ ∈ (TaskQueue.takeNext running worker x.shared.queue).rest
      rw [TaskQueue.takeNext, rest]
      exact (List.mem_eraseP_of_neg unable).mpr mem
  · have busy : x.shared.queue.isEmpty = false := by
      cases queue : x.shared.queue with
      | nil => rw [queue] at mem; cases mem
      | cons => rfl
    rw [Shared.isDone, busy, Bool.and_false, Bool.false_and]

theorem World.Regular.entry (h : w.Regular p) (known : w.schedulers.get? s = some x)
    (mem : e ∈ x.shared.queue) : Runnable x e ∨ Stray p x e := by
  have workers := h.workers s x known
  by_cases pin : ∀ k, e.worker = some k → k < x.config.threads
  · exact .inl (runnable_of_pin workers pin)
  · obtain ⟨k, pin⟩ := not_forall.mp pin
    obtain ⟨pinned, out⟩ := Classical.not_imp.mp pin
    obtain within | ⟨named, id, task⟩ := h.queued s x known e mem k pinned
    · exact absurd within out
    · obtain ⟨_, _⟩ := e
      obtain rfl : _ = _ := task
      obtain rfl : _ = _ := pinned
      exact .inr (stray_of_pin mem (Nat.le_of_not_lt out) named)

/-- A task is not queued for a worker that the scheduler does not have. -/
theorem scheduleOn_refused (known : w.schedulers.get? s = some x) (task : Task Body) {worker : Nat}
    (out : x.config.threads ≤ worker) :
    ∃ w', (scheduleOn s task worker).on w = (.error (.panic (.violation
        (.workerOutOfRange worker x.config.name x.config.threads))), w') ∧ Remains w w' .none := by
  let v := Violation.workerOutOfRange worker x.config.name x.config.threads
  obtain ⟨u, logged, quiet⟩ := log_quiet .error (announcement v) w
  obtain ⟨w', released, appends⟩ := release_on (taskHandles_free task) u
  refine ⟨w', ?_, quiet.appends.toRemains.trans_none appends.toRemains⟩
  rw [scheduleOn, Act.on_bind_ok (schedulerRecord_on s w)]
  simp only [known, Option.getD_some]
  rw [if_pos out, logError, Act.on_bind_ok logged, Act.on_bind_ok released]
  rfl

/-- In every world that a program reaches, each entry of a queue is runnable or that of a fiber
which switched to an index that no worker has, and which then keeps the run loops from ending. To
queue a task for an index that no worker has is a violation, and leaves the queues as they are. -/
theorem entries_are_runnable_unless_stray (p : Program) (timing : Timing)
    (environment : Environment) (settings : Log.Settings) (contextual : Bool)
    (sink : Option SinkSpec) (label : String) (rounds : Nat)
    (reached : w = (World.start p timing environment settings contextual sink label).runUpTo rounds)
    (known : w.schedulers.get? s = some x) :
    (∀ e ∈ x.shared.queue, Runnable x e ∨ Stray p x e) ∧
      ∀ task worker, x.config.threads ≤ worker → ∃ w', (scheduleOn s task worker).on w =
          (.error (.panic (.violation
            (.workerOutOfRange worker x.config.name x.config.threads))), w') ∧
        ∀ j y', w'.schedulers.get? j = some y' →
          ∃ y, w.schedulers.get? j = some y ∧ y'.shared.queue = y.shared.queue := by
  have regular : w.Regular p := by
    rw [reached]
    exact (start_isRegular p timing environment settings contextual sink label).runUpTo rounds
  refine ⟨fun e mem => regular.entry known mem, fun task worker out => ?_⟩
  obtain ⟨w', refused, remains⟩ := scheduleOn_refused known task out
  refine ⟨w', refused, fun j y' known' => ?_⟩
  obtain ⟨y, there, queue⟩ := remains.scheduler j y' known'
  exact ⟨y, there, queue.trans (List.append_nil _)⟩

/-- A scheduler with one worker, and a fiber that switches to another one. -/
def strayScript : Program :=
  ⟨#[[.perform "sched_new"
        (.scheduler (.new "s" ⟨false, .empty, [.threads 1, .useCaller true]⟩ none)),
      .perform "spawn" (.fiber (.spawn "f" ⟨.block 1, none, none, false, none⟩)),
      .perform "schedule_on" (.scheduler (.scheduleOn "s" (.callback (.block 2) none) 0)),
      .perform "resume" (.fiber (.resume "f")),
      .perform "schedule_on" (.scheduler (.scheduleOn "s" (.callback (.block 2) none) 5))],
    [.perform "switch_to" (.scheduler (.switchTo "s" (some 5)))],
    []]⟩

def strayAfter (rounds : Nat) : World :=
  (World.start strayScript .frozen .empty (Log.Settings.fresh.setLevel .off) true (some .full)
    "main").runUpTo rounds

theorem strayAfter_eq (rounds : Nat) : strayAfter rounds =
    (World.start strayScript .frozen .empty (Log.Settings.fresh.setLevel .off) true (some .full)
      "main").runUpTo rounds := rfl

/-- The callback in the queue is runnable, the fiber is a stray. -/
theorem entries_of_switched_fiber : ∃ x, (strayAfter 40).schedulers.get? 1 = some x ∧
    x.shared.queue = [⟨.callback (.script 2 "main"), some 0⟩, ⟨.fiber ⟨2⟩, some 5⟩] ∧
    ∀ e ∈ x.shared.queue, Runnable x e ∨ Stray strayScript x e := by
  have there : ((strayAfter 40).schedulers.get? 1).isSome = true := by decide +kernel
  obtain ⟨x, known⟩ := Option.isSome_iff_exists.mp there
  have queue : (strayAfter 40).queueOf 1 =
      some [⟨.callback (.script 2 "main"), some 0⟩, ⟨.fiber ⟨2⟩, some 5⟩] := by decide +kernel
  rw [World.queueOf, known] at queue
  refine ⟨x, known, Option.some.inj queue, ?_⟩
  exact (entries_are_runnable_unless_stray strayScript .frozen .empty
    (Log.Settings.fresh.setLevel .off) true (some .full) "main" 40 (strayAfter_eq 40) known).1

/-- The scheduler has one worker, to which alone tasks may be pinned; but the fiber that switched to
the worker of index 5 is queued for it. -/
theorem switch_queues_for_missing_worker :
    ((strayAfter 40).schedulers.get? 1).map (fun x => x.config.threads) = some 1 ∧
      (strayAfter 40).queueOf 1 =
        some [⟨.callback (.script 2 "main"), some 0⟩, ⟨.fiber ⟨2⟩, some 5⟩] ∧
      (strayAfter 40).reports.map (fun a => (a.1, a.2.compact)) =
        [("sched_new", "\"ok\""), ("spawn", "2"), ("schedule_on", "1"), ("resume", "\"HOLD\""),
          ("schedule_on", "\x7b\"error\":\"ContractViolation\",\"message\":" ++
            "\"worker 5 out of range for scheduler fibrio with 1 worker(s)\"\x7d")] := by
  refine ⟨?_, ?_, ?_⟩ <;> decide +kernel

end Fibers.Script
