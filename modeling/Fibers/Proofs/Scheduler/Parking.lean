import Fibers.Proofs.Scheduler.Holding
import Mathlib.Logic.Function.Iterate

/-!
The queue and the parking place. Entries wake a worker only when the queue was empty before, a
worker that finds nothing may have used up the wake that was meant for another one, and no more than
so many wakes are kept. `Tends` is any number of workers that look for work and park, and of others
that queue, in any order. While there is something in the queue, a wake is kept in the parking place
or a worker looks again before it parks: whoever passes over an entry wakes another worker.
-/

namespace Fibers

variable {β : Type}

namespace Parking

theorem wake_permits_pos (p : Parking) : 0 < p.wake.permits := by
  unfold wake maxPermits
  split
  · exact Nat.succ_pos _
  · omega

theorem wake_permits_le {p : Parking} (bound : p.permits ≤ maxPermits) :
    p.wake.permits ≤ maxPermits := by
  unfold wake
  split
  · assumption
  · exact bound

theorem permits_le_wake (p : Parking) : p.permits ≤ p.wake.permits := by
  unfold wake
  split
  · exact Nat.le_succ _
  · exact Nat.le_refl _

/-- Wakes that come one after the other. -/
theorem wakes_permits {p : Parking} (bound : p.permits ≤ maxPermits) (n : Nat) :
    (wake^[n] p).permits ≤ maxPermits ∧ p.permits ≤ (wake^[n] p).permits := by
  induction n with
  | zero => exact ⟨bound, Nat.le_refl _⟩
  | succ n ih =>
    rw [Function.iterate_succ_apply']
    exact ⟨wake_permits_le ih.1, Nat.le_trans ih.2 (permits_le_wake _)⟩

/-- The parking place after a wake that may be due. -/
def wakeIf (p : Parking) (due : Bool) : Parking := if due then p.wake else p

theorem wakeIf_permits {p : Parking} (bound : p.permits ≤ maxPermits) (due : Bool) :
    (p.wakeIf due).permits ≤ maxPermits ∧ p.permits ≤ (p.wakeIf due).permits := by
  cases due with
  | false => exact ⟨bound, Nat.le_refl _⟩
  | true => exact ⟨wake_permits_le bound, permits_le_wake p⟩

theorem take?_of_pos {p : Parking} (kept : 0 < p.permits) : p.take? = some ⟨p.permits - 1⟩ := by
  obtain ⟨n, hn⟩ := Nat.exists_eq_add_of_lt kept
  rw [Nat.zero_add] at hn
  rw [take?, hn]
  rfl

end Parking

namespace TaskQueue

/-- A scan asks for a wake if it passed over an entry before, or leaves entries in the queue. -/
theorem scan_wake (running : FiberId → Bool) (worker : Nat) (skipped : Bool) (q : TaskQueue β) :
    (scan running worker skipped q).wake =
      (skipped || !(scan running worker skipped q).rest.isEmpty) := by
  induction q generalizing skipped with
  | nil => simp [scan]
  | cons e q ih =>
    unfold scan
    split
    · rfl
    · simp [ih true]

/-- A scan that leaves entries in the queue, be it without finding one, asks for a wake. -/
theorem scan_wakes (running : FiberId → Bool) (worker : Nat) (skipped : Bool) (q : TaskQueue β)
    (left : (scan running worker skipped q).rest ≠ []) :
    (scan running worker skipped q).wake = true := by
  simp [scan_wake, left]

end TaskQueue

namespace Script

variable {w w' : World} {s : SchedulerId} {q : TaskQueue Body} {place : Parking}

/-- The queue of a scheduler and the place where its workers park. -/
def World.berth (w : World) (s : SchedulerId) : Option (TaskQueue Body × Parking) :=
  (w.schedulers.get? s).bind fun r =>
    match r.hooks with
    | .parking place => some (r.shared.queue, place)
    | _ => none

theorem berth_iff : w.berth s = some (q, place) ↔
    ∃ r, w.schedulers.get? s = some r ∧ r.hooks = .parking place ∧ r.shared.queue = q := by
  unfold World.berth
  rw [Option.bind_eq_some_iff]
  refine exists_congr fun r => and_congr_right fun _ => ?_
  split
  · next p hooks =>
    rw [hooks, Option.some.injEq, Prod.mk.injEq, Hooks.parking.injEq]
    exact and_comm
  · next other =>
    refine iff_of_false (Option.some_ne_none _).symm fun ⟨hooks, _⟩ => other _ hooks

/-- A change of the scheduler. -/
theorem berth_modify (known : w.berth s = some (q, place))
    {k : SchedulerRecord → SchedulerRecord} {place' : Parking} {q' : TaskQueue Body}
    (hooks : ∀ r, r.hooks = .parking place → (k r).hooks = .parking place')
    (queue : ∀ r, r.shared.queue = q → (k r).shared.queue = q') :
    World.berth { w with schedulers := w.schedulers.modify s k } s = some (q', place') := by
  obtain ⟨r, hr, parking, same⟩ := berth_iff.mp known
  refine berth_iff.mpr ⟨k r, ?_, hooks r parking, queue r same⟩
  change (w.schedulers.modify s k).get? s = _
  rw [Table.get?_modify, if_pos rfl, hr]
  rfl

theorem berth_record (known : w.berth s = some (q, place)) :
    ((w.schedulers.get? s).getD default).hooks = .parking place ∧
      ((w.schedulers.get? s).getD default).shared.queue = q := by
  obtain ⟨r, hr, hooks, queue⟩ := berth_iff.mp known
  rw [hr]
  exact ⟨hooks, queue⟩

theorem tickle_berth (known : w.berth s = some (q, place)) :
    ∃ w', (tickle s).on w = (.ok (), w') ∧ w'.berth s = some (q, place.wake) := by
  refine ⟨_, ?_, berth_modify known (k := fun r => { r with hooks := .parking place.wake })
    (fun _ _ => rfl) fun _ same => same⟩
  rw [tickle, Act.on_bind_ok (schedulerRecord_on s w), (berth_record known).1]
  exact updateScheduler_on s _ w

theorem tickleIf_berth (known : w.berth s = some (q, place)) (due : Bool) :
    ∃ w', (if due then tickle s else pure () : Act Unit).on w = (.ok (), w') ∧
      w'.berth s = some (q, place.wakeIf due) := by
  cases due with
  | false => exact ⟨w, rfl, known⟩
  | true => exact tickle_berth known

theorem enqueue_berth (known : w.berth s = some (q, place))
    (entries : List (QueueEntry Body)) :
    ∃ w', (enqueue s entries).on w = (.ok (), w') ∧
      w'.berth s = some (q ++ entries, place.wakeIf (q.isEmpty && !entries.isEmpty)) := by
  have queue := (berth_record known).2
  have pushed : (w.withEntries s entries).berth s = some (q ++ entries, place) := by
    refine berth_modify known (fun _ hooks => hooks) fun _ _ => ?_
    change ((w.schedulers.get? s).getD default).shared.queue ++ entries = _
    rw [queue]
  have due : (((w.schedulers.get? s).getD default).shared.push entries).2 =
      (q.isEmpty && !entries.isEmpty) := by
    change (_ && _) = _
    rw [queue]
  rw [enqueue_eq, due]
  exact tickleIf_berth pushed _

theorem takeNext_berth (known : w.berth s = some (q, place)) (worker : Nat) :
    ∃ w', (takeNext s worker).on w = (.ok (q.takeNext w.isRunning worker).entry, w') ∧
      w'.berth s = some ((q.takeNext w.isRunning worker).rest,
        place.wakeIf (q.takeNext w.isRunning worker).wake) := by
  have queue := (berth_record known).2
  let pick := q.takeNext w.isRunning worker
  let taken := ((w.schedulers.get? s).getD default).shared.take w.isRunning worker
  have found : taken.entry = pick.entry ∧ taken.shared.queue = pick.rest ∧
      taken.wake = pick.wake := by
    change (TaskQueue.takeNext _ _ ((w.schedulers.get? s).getD default).shared.queue).entry = _ ∧
      (TaskQueue.takeNext _ _ ((w.schedulers.get? s).getD default).shared.queue).rest = _ ∧
      (TaskQueue.takeNext _ _ ((w.schedulers.get? s).getD default).shared.queue).wake = _
    rw [queue]
    exact ⟨rfl, rfl, rfl⟩
  have left : World.berth (w.withShared s fun _ => taken.shared) s = some (pick.rest, place) :=
    berth_modify known (fun _ hooks => hooks) fun _ _ => found.2.1
  obtain ⟨w', woken, berth⟩ := tickleIf_berth left taken.wake
  rw [found.2.2] at berth
  refine ⟨w', ?_, berth⟩
  rw [takeNext, Act.on_bind_get, Act.on_bind_ok (schedulerRecord_on s w),
    Act.on_bind_ok (updateShared_on s _ w)]
  refine (Act.on_when woken).trans ?_
  rw [← found.1]
  rfl

/-- How far a worker is. -/
inductive Stand where
  /-- It has not begun. -/
  | away
  /-- It looks for work before it parks, be it that it runs a task until then. -/
  | looks
  /-- It found nothing, and parks next. -/
  | parks
  /-- It is blocked, until a moment if one is given. -/
  | waits (until? : Option Instant)
  deriving DecidableEq

/-- Where the worker is after it went to park. -/
def World.parked (w : World) : Stand :=
  match w.thread.wait with
  | some (.hooksPlace _ until?) => .waits until?
  | _ => .looks

theorem parked_of_awake (awake : w.thread.wait = none) : w.parked = .looks := by
  rw [World.parked, awake]

/-- A worker that parks uses up a wake that was kept, unless it finds that it may end; it is not
blocked then. -/
theorem idleParking_berth (known : w.berth s = some (q, place)) (awake : w.thread.wait = none) :
    ∃ place', (w.perform (idleParking s)).2.berth s = some (q, place') ∧
      place'.permits ≤ place.permits ∧
      (0 < place.permits → (w.perform (idleParking s)).2.parked = .looks) ∧
      (place' = place ∨ (w.perform (idleParking s)).2.parked = .looks) := by
  cases stops : w.isStopping s with
  | true =>
    have ends : (idleParking s).on w = (.ok (.done .null), w) := by
      rw [idleParking, isStopping, bind_assoc, Act.on_bind_get, Act.on_bind_pure, stops]
      rfl
    rw [perform_of_ok ends]
    exact ⟨place, known, Nat.le_refl _, fun _ => parked_of_awake awake, .inl rfl⟩
  | false =>
    let v := w.pushed (.idleParked s)
    let keep := fun p => updateScheduler s fun r => { r with hooks := .parking p }
    let until? := some (v.clock + ((w.schedulers.get? s).getD default).config.parkTimeout)
    have hooks : ((v.schedulers.get? s).getD default).hooks = .parking place :=
      (berth_record (w := v) known).1
    have goes : (idleParking s).on w = (parkAt (some place) keep (.hooksPlace s until?)).on v := by
      rw [idleParking, isStopping, bind_assoc, Act.on_bind_get, Act.on_bind_pure, stops]
      simp only [Bool.false_eq_true, if_false]
      rw [Act.on_bind_ok (push_on _ w), Act.on_bind_ok (schedulerRecord_on s _), parkWorker,
        deadline, bind_assoc, Act.on_bind_get, Act.on_bind_pure,
        Act.on_bind_ok (schedulerRecord_on s _), hooks]
      rfl
    have awake' : v.thread.wait = none := by
      change (((w.threads.modify w.running _).get? w.running).getD default).wait = none
      unfold World.thread at awake
      rw [Table.get?_modify, if_pos rfl]
      cases here : w.threads.get? w.running with
      | none => rfl
      | some t =>
        rw [here] at awake
        exact awake
    by_cases kept : 0 < place.permits
    · let used : Parking := ⟨place.permits - 1⟩
      have taken : (parkAt (some place) keep (.hooksPlace s until?)).on v =
          (.ok (.done (.flag true)), { v with schedulers := v.schedulers.modify s fun r =>
            { r with hooks := .parking used } }) := by
        rw [parkAt, Option.bind_some, Parking.take?_of_pos kept]
        rfl
      rw [perform_of_ok (goes.trans taken)]
      exact ⟨used, berth_modify (w := v) known (fun _ _ => rfl) fun _ same => same, Nat.sub_le _ _,
        fun _ => parked_of_awake awake', .inr (parked_of_awake awake')⟩
    · have none : place.take? = none := by
        rw [Parking.take?, Nat.eq_zero_of_not_pos kept]
      obtain ⟨answer, w', blocked, berth⟩ : ∃ answer w',
          (parkAt (some place) keep (.hooksPlace s until?)).on v = (.ok answer, w') ∧
            w'.berth s = some (q, place) := by
        rw [parkAt, Option.bind_some, none]
        dsimp only
        rw [Act.on_bind_get]
        split
        · exact ⟨_, _, rfl, known⟩
        · exact ⟨_, v, rfl, known⟩
      rw [perform_of_ok (goes.trans blocked)]
      exact ⟨place, berth, Nat.le_refl _, fun more => absurd more kept, .inl rfl⟩

/-- A wait ends at once when a wake is kept, which it uses up; else it lasts or has lasted long
enough, and the parking place is as it was. -/
theorem tryWait_berth (known : w.berth s = some (q, place)) (until? : Option Instant) :
    (0 < place.permits → ∃ w', (tryWait (.hooksPlace s until?)).on w =
        (.ok (some (.done (.flag true))), w') ∧
      w'.berth s = some (q, ⟨place.permits - 1⟩)) ∧
    (place.permits = 0 → ∃ answer, (tryWait (.hooksPlace s until?)).on w = (.ok answer, w)) := by
  rw [tryWait, Act.on_bind_ok (schedulerRecord_on s w), (berth_record known).1]
  dsimp only
  constructor
  · intro kept
    rw [Parking.take?_of_pos kept]
    exact ⟨_, rfl, berth_modify known (k := fun r => { r with hooks := .parking _ })
      (fun _ _ => rfl) fun _ same => same⟩
  · intro none
    rw [show place.take? = Option.none by rw [Parking.take?, none]]
    change ∃ answer, (if w.isPast until? then pure _ else pure _ : Act (Option Signal)).on w = _
    split
    · exact ⟨_, rfl⟩
    · exact ⟨_, rfl⟩

/-- Workers that look for work and park, and others that queue and wake. -/
inductive Tends (s : SchedulerId) : (Nat → Stand) → World → Prop where
  | start {w : World} (berth : w.berth s = some ([], .fresh)) : Tends s (fun _ => .away) w
  | begins {stands : Nat → Stand} {w : World} {i : Nat} (run : Tends s stands w)
      (away : stands i = .away) : Tends s (Function.update stands i .looks) w
  | queue {stands : Nat → Stand} {w : World} (run : Tends s stands w)
      (entries : List (QueueEntry Body)) : Tends s stands ((enqueue s entries).on w).2
  /-- A worker looks for work. If it finds some it runs that, and then looks again. -/
  | looks {stands : Nat → Stand} {w w' : World} {i : Nat} {found : Option (QueueEntry Body)}
      (run : Tends s stands w) (stand : stands i = .looks)
      (looked : (takeNext s i).on w = (.ok found, w')) :
      Tends s (Function.update stands i (if found.isSome then .looks else .parks)) w'
  /-- A worker that found nothing goes to the parking place. -/
  | parks {stands : Nat → Stand} {w : World} {i : Nat} (run : Tends s stands w)
      (stand : stands i = .parks) (awake : w.thread.wait = none) :
      Tends s (Function.update stands i (w.perform (idleParking s)).2.parked)
        (w.perform (idleParking s)).2
  /-- A worker that is blocked is released by a wake or after a time, or waits on. -/
  | waits {stands : Nat → Stand} {w w' : World} {i : Nat} {until? : Option Instant}
      {answer : Option Signal} (run : Tends s stands w) (stand : stands i = .waits until?)
      (tried : (tryWait (.hooksPlace s until?)).on w = (.ok answer, w')) :
      Tends s (Function.update stands i (if answer.isSome then .looks else .waits until?)) w'
  /-- Anybody does something else, and wakes workers as often as may be. -/
  | elsewhere {stands : Nat → Stand} {w w' : World} (run : Tends s stands w) (n : Nat)
      (berth : w'.berth s = (w.berth s).map fun b => (b.1, Parking.wake^[n] b.2)) :
      Tends s stands w'

/-- A wake is kept, or somebody looks before parking. -/
def Announced (stands : Nat → Stand) (place : Parking) : Prop :=
  0 < place.permits ∨ ∃ i, stands i = .looks

/-- Nothing stands in the queue unannounced. -/
structure Berthed (s : SchedulerId) (stands : Nat → Stand) (w : World) (q : TaskQueue Body)
    (place : Parking) : Prop where
  berth : w.berth s = some (q, place)
  bound : place.permits ≤ Parking.maxPermits
  announced : q ≠ [] → Announced stands place

variable {stands : Nat → Stand} {i : Nat}

namespace Berthed

theorem looking (berth : w.berth s = some (q, place)) (bound : place.permits ≤ Parking.maxPermits)
    (looks : stands i = .looks) : Berthed s stands w q place :=
  ⟨berth, bound, fun _ => .inr ⟨i, looks⟩⟩

/-- Whoever looks is another one than the worker that parks or waits. -/
theorem restand (h : Berthed s stands w q place) (berth : w'.berth s = some (q, place))
    (idle : stands i ≠ .looks) (stand : Stand) :
    Berthed s (Function.update stands i stand) w' q place where
  berth := berth
  bound := h.bound
  announced left := by
    rcases h.announced left with kept | ⟨j, looks⟩
    · exact .inl kept
    · refine .inr ⟨j, ?_⟩
      rw [Function.update_of_ne, looks]
      rintro rfl
      exact idle looks

end Berthed

theorem Tends.berthed (run : Tends s stands w) : ∃ q place, Berthed s stands w q place := by
  induction run with
  | start berth => exact ⟨_, _, berth, Nat.zero_le _, fun left => absurd rfl left⟩
  | @begins _ _ i _ away ih =>
    obtain ⟨q, place, h⟩ := ih
    exact ⟨q, place, .looking h.berth h.bound (i := i) (Function.update_self ..)⟩
  | queue _ entries ih =>
    obtain ⟨q, place, h⟩ := ih
    obtain ⟨w', queued, berth⟩ := enqueue_berth h.berth entries
    rw [queued]
    have more := Parking.wakeIf_permits h.bound (q.isEmpty && !entries.isEmpty)
    refine ⟨_, _, berth, more.1, fun left => ?_⟩
    cases q with
    | nil =>
      cases entries with
      | nil => exact absurd rfl left
      | cons e es => exact .inl (Parking.wake_permits_pos place)
    | cons e q =>
      rcases h.announced (List.cons_ne_nil e q) with kept | looks
      · exact .inl (Nat.lt_of_lt_of_le kept more.2)
      · exact .inr looks
  | @looks _ w _ i _ _ stand looked ih =>
    obtain ⟨q, place, h⟩ := ih
    obtain ⟨v, took, berth⟩ := takeNext_berth h.berth i
    obtain ⟨found, rfl⟩ := Prod.mk.inj (took.symm.trans looked)
    have more := Parking.wakeIf_permits h.bound (q.takeNext w.isRunning i).wake
    refine ⟨_, _, berth, more.1, fun left => ?_⟩
    have due : (q.takeNext w.isRunning i).wake = true := TaskQueue.scan_wakes _ _ _ _ left
    rw [due]
    exact .inl (Parking.wake_permits_pos place)
  | @parks _ w i _ stand awake ih =>
    obtain ⟨q, place, h⟩ := ih
    obtain ⟨place', berth, fewer, _, same | looks⟩ := idleParking_berth h.berth awake
    · rw [same] at berth
      exact ⟨q, place, h.restand berth (by rw [stand]; exact Stand.noConfusion) _⟩
    · exact ⟨q, place', .looking berth (Nat.le_trans fewer h.bound) (i := i)
        (by rw [Function.update_self, looks])⟩
  | @waits _ w _ i until? _ _ stand tried ih =>
    obtain ⟨q, place, h⟩ := ih
    obtain ⟨taken, untaken⟩ := tryWait_berth h.berth until?
    rcases Nat.eq_zero_or_pos place.permits with none | kept
    · obtain ⟨answer, waits⟩ := untaken none
      obtain ⟨_, rfl⟩ := Prod.mk.inj (waits.symm.trans tried)
      exact ⟨q, place, h.restand h.berth (by rw [stand]; exact Stand.noConfusion) _⟩
    · obtain ⟨v, released, berth⟩ := taken kept
      obtain ⟨answer, rfl⟩ := Prod.mk.inj (released.symm.trans tried)
      obtain rfl := Except.ok.inj answer
      exact ⟨q, _, .looking berth (Nat.le_trans (Nat.sub_le _ _) h.bound) (i := i)
        (Function.update_self ..)⟩
  | elsewhere _ n berth ih =>
    obtain ⟨q, place, h⟩ := ih
    rw [h.berth] at berth
    obtain ⟨bound, more⟩ := Parking.wakes_permits h.bound n
    refine ⟨q, _, berth, bound, fun left => ?_⟩
    rcases h.announced left with kept | looks
    · exact .inl (Nat.lt_of_lt_of_le kept more)
    · exact .inr looks

/-- In every order in which any number of workers look for work and park and others queue and wake:
while something stands in the queue, a wake is kept or a worker looks again before it parks. If none
looks, then no worker that parks is blocked, and whoever is blocked is released at once. -/
theorem queued_work_is_announced (run : Tends s stands w) :
    ∃ q place, w.berth s = some (q, place) ∧ place.permits ≤ Parking.maxPermits ∧
      (q ≠ [] → 0 < place.permits ∨ ∃ i, stands i = .looks) ∧
      (q ≠ [] → (∀ i, stands i ≠ .looks) →
        (w.thread.wait = none → (w.perform (idleParking s)).2.parked = .looks) ∧
        ∀ until?, ((tryWait (.hooksPlace s until?)).on w).1 =
          .ok (some (.done (.flag true)))) := by
  obtain ⟨q, place, h⟩ := run.berthed
  refine ⟨q, place, h.berth, h.bound, h.announced, fun left none => ?_⟩
  have kept : 0 < place.permits := by
    rcases h.announced left with kept | ⟨i, looks⟩
    · exact kept
    · exact absurd looks (none i)
  refine ⟨fun awake => ?_, fun until? => ?_⟩
  · obtain ⟨_, _, _, released, _⟩ := idleParking_berth h.berth awake
    exact released kept
  · obtain ⟨w', released, _⟩ := (tryWait_berth h.berth until?).1 kept
    rw [released]

/-- Another thread goes on. -/
theorem Tends.switch (run : Tends s stands w) (t : ThreadId) :
    Tends s stands { w with running := t } := by
  refine run.elsewhere 0 ?_
  change w.berth s = _
  cases w.berth s <;> rfl

/-- A scheduler with two workers, where time flows. -/
def twoWorkers : World :=
  { World.start ⟨#[]⟩ .flowing .empty .fresh false none "main" with
    schedulers := Table.empty.put 1
      { config := { SchedulerConfig.standard with threads := 2 }
        hooks := .parking .fresh
        shared := .fresh
        root := none
        owner := none
        workers := []
        threadIds := 0
        handles := 1 }
    threads := (Table.empty.put 0 (.fresh [] (some 1))).put 1 (.fresh [] (some 1)) }

/-- The wake for an entry that is pinned to worker 1 goes to worker 0, which passes the entry over
and is about to park. Worker 1 is blocked, and is released. -/
theorem skipped_entry_is_announced : ∃ stands w, Tends 1 stands w ∧
    w.queueOf 1 = some [⟨.callback (.script 0 "pinned"), some 1⟩] ∧
    stands 0 = .parks ∧ (∃ until?, stands 1 = .waits until? ∧
      ((tryWait (.hooksPlace 1 until?)).on w).1 = .ok (some (.done (.flag true)))) := by
  have begun := ((Tends.start (s := 1) (w := twoWorkers) rfl).begins (i := 0) rfl).begins
    (i := 1) rfl
  have parked := (begun.looks (i := 0) rfl rfl).parks (i := 0) rfl rfl
  have both := ((parked.switch 1).looks (i := 1) rfl rfl).parks (i := 1) rfl rfl
  have queued := both.queue [⟨.callback (.script 0 "pinned"), some 1⟩]
  have last := (queued.waits (i := 0) rfl rfl).looks (i := 0) rfl rfl
  obtain ⟨q, place, berth, _, _, released⟩ := queued_work_is_announced last
  have left : q = [⟨.callback (.script 0 "pinned"), some 1⟩] :=
    (congrArg Prod.fst (Option.some.inj berth)).symm
  refine ⟨_, _, last, rfl, rfl, _, rfl, (released ?_ fun i => ?_).2 _⟩
  · rw [left]
    exact List.cons_ne_nil _ _
  · rcases i with _ | _ | i
    · exact Stand.noConfusion
    · exact Stand.noConfusion
    · exact Stand.noConfusion

end Script

end Fibers
