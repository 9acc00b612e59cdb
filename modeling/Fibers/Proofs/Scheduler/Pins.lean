import Fibers.Proofs.Scheduler.Tasks

/-!
Tasks that are pinned to a worker. The pin stands in the entry of the queue, and the run loop queues
a fiber that is ready without one: a pin holds until the task is left for the first time. The module
ends with a script in which another worker goes on with a task that was pinned.
-/

namespace Fibers.Script

variable {D : Docket} {w : World} {s : SchedulerId} {n k : Nat}

/-- The first stretch of a task that is pinned is one of its worker. -/
theorem Commission.Orderly.first {commission : Commission} {course : List Stretch} {c : Stretch}
    (h : commission.Orderly (some k) course) (first : course.getLast? = some c) :
    c.worker = k ∧ c.pinned = some k := by
  induction course with
  | nil => cases first
  | cons d past ih =>
    obtain ⟨orderly, follows⟩ := h
    cases past with
    | nil =>
      obtain rfl := Option.some.inj first
      have pinned := follows.first rfl
      exact ⟨follows.picked k pinned, pinned⟩
    | cons e past => exact ih orderly first

/-- A task that is in the queue is there to go on with what it was left with. -/
theorem Filed.waiting (h : Filed D w) {e : QueueEntry Body} (mem : (n, e) ∈ D.posts) :
    (Spot.ofEntry e).Sound w (D.tasks n) :=
  h.sound (n, .ofEntry e) (List.mem_append_right _ (List.mem_append_left _
    (List.mem_map.mpr ⟨(n, e), mem, rfl⟩)))

/-- In every run of however many workers, a task that was accepted for one worker waits for that
worker until it has run a stretch of it; but the entries with which the run loop queues the task
again, each time that it was left to go on at once, are for any worker, and whoever looks there
first may take them. -/
theorem pins_last_for_one_stretch (run : Carries s D w)
    (pinned : (D.tasks n).pinned = some k) :
    (∀ c, (D.tasks n).course.getLast? = some c → c.worker = k) ∧
      (∀ e, (n, e) ∈ D.posts → (D.tasks n).course = [] → e.worker = some k) ∧
      ∀ e, (n, e) ∈ D.posts → (D.tasks n).left = some .ready → e.worker = none ∧
        ∀ worker, TaskQueue.eligible w.isRunning worker e = true := by
  have h := run.carried.filed
  refine ⟨fun c first => ?_, fun e mem fresh => ?_, fun e mem left => ?_⟩
  · have orderly := h.orderly n
    unfold Assignment.Orderly at orderly
    rw [pinned] at orderly
    exact (orderly.first first).1
  · have sound := h.waiting mem
    obtain ⟨task, pin⟩ := e
    cases task with
    | fiber id => exact (sound.2.2.2.1 fresh).trans pinned
    | callback body => exact sound.2.2.trans pinned
  · have sound := h.waiting mem
    obtain ⟨task, pin⟩ := e
    cases task with
    | callback body =>
      rw [Assignment.left, sound.2.1] at left
      cases left
    | fiber id =>
      obtain ⟨_, _, ⟨state, resumable, rests⟩, _, again⟩ := sound
      obtain rfl := again left
      obtain ⟨r, hr, rfl, _⟩ := rests.record
      have still : w.isRunning id = false := by
        rw [World.isRunning, FiberTable.state, hr]
        dsimp only
        cases hs : r.state <;> rw [hs] at resumable <;> first | rfl | cases resumable
      refine ⟨rfl, fun worker => ?_⟩
      rw [TaskQueue.eligible]
      dsimp only
      rw [still]
      rfl

def twoIdles : World := (hiredWorld.perform (BodyCall.make (.idle 1) 131072 true).act).2

theorem twoIdles_fit : twoIdles.Fit := by
  have allowed : (BodyCall.make (.idle 1) 131072 true).Allowed hiredWorld := rfl
  exact (BodyCall.onward hiredWorld_fit allowed).fit

/-- A callback that is pinned to the first of two workers yields, and the second one goes on. -/
theorem yielding_callback_changes_workers : ∃ D w, Carries 1 D w ∧ (D.tasks 0).pinned = some 0 ∧
    (D.tasks 0).course.map (·.worker) = [1, 0] ∧
    ∀ c, (D.tasks 0).course.getLast? = some c → c.worker = 0 := by
  have same := fun xs : List Hand => List.Perm.refl xs
  have other := fun x y : Hand => List.Perm.swap x y []
  have first := (Carries.start twoIdles_fit rfl rfl rfl).hire (l := ⟨1, 0, ⟨1⟩, []⟩) rfl rfl
    (by decide +kernel)
  have both := first.hire (l := ⟨1, 1, ⟨2⟩, []⟩) rfl rfl (by decide +kernel)
  have queued := both.accept
    (show Accepts _ _ [⟨.callback (.script 0 "task"), some 0⟩] _ from .callback .nil)
    both.carried.filed.covered
  have taken := queued.take (other _ _) rfl
  have made := taken.make (same _) rfl rfl rfl
  have begun := made.elsewhere (.entered made.carried.filed (f := ⟨3⟩) rfl)
    fun y known => ⟨y, known, rfl, rfl⟩
  have left := begun.leave (same _) (fun c r hc hr => by cases hc; cases hr; rfl) rfl .ready trivial
  have queued := (left.back (same _)).settle (same _) ⟨rfl, rfl⟩
  have taken := queued.take (p := (0, ⟨.fiber ⟨3⟩, none⟩)) (other _ _) (by decide +kernel)
  have resumed := taken.resume (same _) (by decide +kernel)
  obtain ⟨stretches, -⟩ := pins_last_for_one_stretch (n := 0) (k := 0) resumed rfl
  exact ⟨_, _, resumed, rfl, rfl, stretches⟩

/-- Two callbacks are queued for the second worker. The first one yields. -/
def pinnedScript : Program :=
  ⟨#[[.perform "sched_new"
        (.scheduler (.new "s" ⟨false, .empty, [.threads 2, .useCaller false]⟩ none)),
      .perform "schedule_on" (.scheduler (.scheduleOn "s" (.callback (.block 1) (some "first")) 1)),
      .perform "schedule_on"
        (.scheduler (.scheduleOn "s" (.callback (.block 2) (some "second")) 1)),
      .perform "start" (.scheduler (.start "s")),
      .perform "stop" (.scheduler (.stop "s"))],
    [.perform "worker_id" (.scheduler .workerId),
      .perform "yield_ready" (.fiber .yieldReady),
      .perform "worker_id" (.scheduler .workerId)],
    [.perform "log" (.fiber (.log (.text "begins"))),
      .perform "log" (.fiber (.log (.text "goes on"))),
      .perform "log" (.fiber (.log (.text "ends")))]]⟩

def pinnedAfter (rounds : Nat) : World :=
  (World.start pinnedScript .flowing .empty (Log.Settings.fresh.setLevel .off) true (some .full)
    "main").runUpTo rounds

/-- The run loop queues the first callback again for any worker, and while the second worker is busy
with the second callback, the first worker goes on with it. -/
theorem pinned_callback_runs_on_other_worker :
    (pinnedAfter 5).queueOf 1 = some [⟨.callback (.script 1 "first"), some 1⟩,
        ⟨.callback (.script 2 "second"), some 1⟩] ∧
      (pinnedAfter 16).queueOf 1 = some [⟨.fiber ⟨4⟩, none⟩] ∧
      (pinnedAfter 60).reports.map (fun a => (a.1, a.2.compact)) =
        [("sched_new", "\"ok\""), ("schedule_on", "null"), ("schedule_on", "null"),
          ("start", "\"ok\""), ("worker_id", "1"), ("log", "\"begins\""), ("yield_ready", "null"),
          ("log", "\"goes on\""), ("worker_id", "0"), ("log", "\"ends\""), ("stop", "null")] := by
  refine ⟨?_, ?_, ?_⟩ <;> decide +kernel

end Fibers.Script
