import Fibers.Proofs.Fiber.Runs
import Fibers.Proofs.Scheduler.View

/-!
Resuming a fiber that waits for another one. Such a fiber is on hold, as one that suspended itself
is, and `resume` takes the one for the other: control re-enters the waiting fiber, whose own resume
ends although the fiber that it awaits has not handed back. Only the rules that do not look at the
state stand in the way: the main fiber is never resumed, and a fiber made for schedulers not by a
thread that has none. A stop from within a fiber that the root fiber of its scheduler runs comes to
the same, unless it finds that the run loops may end.
-/

namespace Fibers

variable {β : Type}

/-- Whatever its state, the fiber is not to be resumed by a thread that has, or has not, a
scheduler. -/
def FiberRecord.gated (r : FiberRecord β) (hasScheduler : Bool) : Bool :=
  r.isMain || r.inScheduler && !hasScheduler

/-- `f` is on hold because it resumed `g`, which has not handed back. -/
structure FiberTable.Holding (t : FiberTable β) (f g : FiberId) (r : FiberRecord β) : Prop where
  found : t.get? f = some r
  hold : r.state = .hold
  awaits : r.awaiting = some g
  apart : g ≠ f

theorem FiberTable.holding_of_standing {t : FiberTable β} {f g : FiberId} {s : Standing}
    (found : t.standing f = some s) (hold : s.state = .hold) (awaits : s.awaiting = some g)
    (apart : g ≠ f) : ∃ r, t.Holding f g r := by
  obtain ⟨r, hr, rfl⟩ := FiberTable.get?_of_standing found
  exact ⟨r, hr, hold, awaits, apart⟩

/-- Every fiber on the links of a chain is on hold because it resumed another one of the chain. -/
theorem Waits.holding {t : FiberTable β} {c f : FiberId} {links : List FiberId}
    (h : Waits t.standing c links) (nodup : (c :: links).Nodup) (on : f ∈ links) :
    ∃ g r, g ∈ c :: links ∧ t.Holding f g r := by
  induction h with
  | main => cases on
  | @link c g links s q _ _ _ found hold awaits _ ih =>
    rcases List.mem_cons.mp on with rfl | on
    · have apart : c ≠ f := fun e => (List.nodup_cons.mp nodup).1 (e ▸ List.mem_cons_self)
      obtain ⟨r, holding⟩ := FiberTable.holding_of_standing found hold awaits apart
      exact ⟨c, r, List.mem_cons_self, holding⟩
    · obtain ⟨x, r, mem, holding⟩ := ih (List.nodup_cons.mp nodup).2 on
      exact ⟨x, r, List.mem_cons_of_mem _ mem, holding⟩

namespace FiberTable

variable {t : FiberTable β} {c f g : FiberId} {r x : FiberRecord β}

/-- `c` has resumed `f`, whose own resume of `g` ended with a state that `g` asked for before. -/
def reentered (t : FiberTable β) (c f g : FiberId) (stale : FiberState) : FiberTable β :=
  let back := (t.depart c f).modify f fun r => { r with state := .exec, awaiting := none }
  back.modify g fun x => { x with resumer := none, state := stale }

/-- The rules that do not look at the state reject the resume. -/
theorem Holding.resume_gated (h : t.Holding f g r) {hasScheduler : Bool}
    (gated : r.gated hasScheduler = true) (current : Option FiberId) :
    ∃ v, t.resume current f hasScheduler = .error v := by
  unfold resume resumeFault?
  rw [h.found]
  dsimp only
  rw [h.hold]
  cases main : r.isMain with
  | true => exact ⟨_, rfl⟩
  | false =>
    have closed : (r.inScheduler && !hasScheduler) = true := by
      rwa [FiberRecord.gated, main, Bool.false_or] at gated
    rw [closed]
    exact ⟨_, rfl⟩

/-- No other rule does. -/
theorem Holding.resume_open (h : t.Holding f g r) {hasScheduler : Bool}
    (gated : r.gated hasScheduler = false) (inner : t.get? g = some x) (other : f ≠ c) :
    t.resume (some c) f hasScheduler =
      .ok ⟨t.reentered c f g x.yielded, c, f, some x.yielded⟩ := by
  obtain ⟨main, closed⟩ := Bool.or_eq_false_iff.mp gated
  have lawful : t.resumeFault? f hasScheduler = none := by
    rw [resumeFault?, h.found]
    dsimp only
    rw [h.hold, main, closed]
    rfl
  have entered : (t.depart c f).get? f = some { r with state := .exec, resumer := some c } := by
    rw [depart, get?_modify, if_pos rfl, get?_modify, if_neg other, h.found]
    rfl
  obtain ⟨y, awaited, yielded⟩ :
      ∃ y, (t.depart c f).get? g = some y ∧ y.yielded = x.yielded := by
    rw [depart, get?_modify, if_neg h.apart, get?_modify, inner]
    split
    · exact ⟨_, rfl, rfl⟩
    · exact ⟨_, rfl, rfl⟩
  unfold resume
  rw [lawful]
  dsimp only
  rw [if_neg fun e => other (Option.some.inj e).symm]
  change Except.ok ((t.depart c f).transfer c f) = _
  rw [transfer, arrive_awaited entered h.awaits awaited, yielded]
  rfl

/-- What re-entering does to the order: the resumer of `f` is overwritten, and `g` gets a state that
it did not ask for. -/
structure Reentered (t t' : FiberTable β) (c f g : FiberId) (stale : FiberState) : Prop where
  target : t'.standing f = (t.standing f).map fun s =>
    { s with state := .exec, resumer := some c, awaiting := none }
  inner : t'.standing g = (t.standing g).map fun s =>
    { s with
      state := stale
      resumer := none
      awaiting := if g = c then some f else s.awaiting }
  caller : c ≠ g → t'.standing c = (t.standing c).map fun s =>
    { s with state := .hold, awaiting := some f }
  others : ∀ id, id ≠ c → id ≠ f → id ≠ g → t'.standing id = t.standing id

theorem reentered_spec (t : FiberTable β) (stale : FiberState) (other : f ≠ c) (apart : g ≠ f) :
    t.Reentered (t.reentered c f g stale) c f g stale := by
  have after : ∀ id, (t.reentered c f g stale).standing id =
      if id = g then ((t.depart c f).standing id).map fun s =>
        { s with resumer := none, state := stale }
      else if id = f then ((t.depart c f).standing id).map fun s =>
        { s with state := .exec, awaiting := none }
      else (t.depart c f).standing id := by
    intro id
    unfold reentered
    rw [standing_modify (g := fun s => { s with resumer := none, state := stale }) _ _ _
        fun _ => rfl,
      standing_modify (g := fun s => { s with state := .exec, awaiting := none }) _ _ _
        fun _ => rfl]
    by_cases hg : id = g
    · rw [if_pos hg, if_pos hg, if_neg fun e : id = f => apart (hg.symm.trans e)]
    · rw [if_neg hg, if_neg hg]
  constructor
  · rw [after, if_neg apart.symm, if_pos rfl, standing_depart t other, if_pos rfl, Option.map_map]
    rfl
  · rw [after, if_pos rfl, standing_depart t other, if_neg apart]
    by_cases hc : g = c
    · rw [if_pos hc, Option.map_map]
      simp only [if_pos hc]
      rfl
    · simp only [if_neg hc]
  · intro hc
    rw [after, if_neg hc, if_neg other.symm, standing_depart t other, if_neg other.symm, if_pos rfl]
  · intro id hc hf hg
    rw [after, if_neg hg, if_neg hf, standing_depart t other, if_neg hf, if_neg hc]

end FiberTable

namespace Script

variable {w w' : World} {c f g : FiberId} {r x : FiberRecord Body} {s : SchedulerId}

/-- The effect is rejected for the rule that it would violate, and changes nothing. -/
def World.Rejects (w : World) (act : Act Signal) : Prop :=
  ∃ v w', w.perform act = (.raised (.violation v), w') ∧ Quiet w w'

/-- The effect lets `c` resume `f`, which is told that `g` left in the state `stale`, and goes on
where it resumed `g`. The stack of `c` has then still to do what `pending` says. -/
structure World.Reenters (w : World) (act : Act Signal) (c f g : FiberId) (stale : FiberState)
    (pending : List Frame) : Prop where
  told : (w.perform act).1 = .left stale
  fibers : w.fibers.Reentered (w.perform act).2.fibers c f g stale
  current : (w.perform act).2.thread.current = some f
  frames : (w.perform act).2.thread.frames = (w.saved.get? f).getD []
  pending : (w.perform act).2.saved.get? c = some pending

/-- A resume of a fiber that waits, in a world that differs from `w` in nothing that the order
depends on. -/
theorem resume_reenters {act : Act Signal} {v : World} (thread : v.HasThread)
    (running : v.thread.current = some c) (holding : v.fibers.Holding f g r) (other : f ≠ c)
    (inner : v.fibers.get? g = some x) (gated : r.gated v.currentScheduler.isSome = false)
    (same : ∀ id, v.fibers.standing id = w.fibers.standing id) (saved : v.saved = w.saved)
    (goes : act.on w = (resume f).on v) : w.Reenters act c f g x.yielded v.thread.frames := by
  have done : act.on w =
      (.ok (.left x.yielded),
        v.followed ⟨v.fibers.reentered c f g x.yielded, c, f, some x.yielded⟩) := by
    rw [goes, resume_on, running, holding.resume_open gated inner other]
    exact follow_on _ v
  obtain ⟨_, current, frames⟩ :=
    followed_thread thread ⟨v.fibers.reentered c f g x.yielded, c, f, some x.yielded⟩
  have after := v.fibers.reentered_spec x.yielded other holding.apart
  have ended := perform_of_ok done
  refine ⟨by rw [ended], ?_, by rw [ended, current], by rw [ended, frames, saved], ?_⟩
  · rw [ended]
    refine ⟨?_, ?_, ?_, ?_⟩
    · rw [← same]
      exact after.target
    · rw [← same]
      exact after.inner
    · rw [← same]
      exact after.caller
    · intro id
      rw [← same]
      exact after.others id
  · rw [ended]
    change ((v.saved.put c v.thread.frames).erase f).get? c = _
    rw [Table.get?_erase, if_neg other.symm, Table.get?_put, if_pos rfl]

/-- Nothing that the fibers, the threads and the end of the run loops depend on tells two worlds
apart. -/
structure Unmoved (w w' : World) : Prop extends Untouched w w' where
  currentScheduler : w'.currentScheduler = w.currentScheduler
  isStopping : ∀ s, w'.isStopping s = w.isStopping s

namespace Unmoved

theorem refl (w : World) : Unmoved w w := ⟨⟨rfl, rfl, rfl, rfl⟩, rfl, fun _ => rfl⟩

theorem trans {u v : World} (h : Unmoved u v) (g : Unmoved v w) : Unmoved u w where
  fibers := g.fibers.trans h.fibers
  saved := g.saved.trans h.saved
  threads := g.threads.trans h.threads
  running := g.running.trans h.running
  currentScheduler := g.currentScheduler.trans h.currentScheduler
  isStopping s := (g.isStopping s).trans (h.isStopping s)

end Unmoved

theorem Quiet.unmoved (h : Quiet w w') : Unmoved w w' := by
  obtain ⟨_, _, _, rfl, _⟩ := h
  exact ⟨⟨rfl, rfl, rfl, rfl⟩, rfl, fun _ => rfl⟩

/-- Hooks that differ in how often they were woken. -/
inductive Hooks.Woken : Hooks → Hooks → Prop where
  | parking (p q : Parking) : Woken (.parking p) (.parking q)
  | scripted (idle : List Nat) (stopping : Option Bool) (n m : Nat) (label : String) :
      Woken (.scripted idle stopping n label) (.scripted idle stopping m label)

theorem currentScheduler_of_modify (s : SchedulerId) (w : World)
    (k : SchedulerRecord → SchedulerRecord) :
    World.currentScheduler { w with schedulers := w.schedulers.modify s k } =
      w.currentScheduler := by
  have present : ∀ j, (w.schedulers.modify s k).contains j = w.schedulers.contains j := by
    intro j
    rw [Table.contains_eq_isSome, Table.contains_eq_isSome, Table.get?_modify]
    split
    · exact Option.isSome_map
    · rfl
  have thread : World.thread { w with schedulers := w.schedulers.modify s k } = w.thread := rfl
  unfold World.currentScheduler
  rw [thread]
  cases w.thread.scheduler with
  | none => rfl
  | some j =>
    dsimp only
    rw [present]

theorem unmoved_of_woken {k : SchedulerRecord → Hooks}
    (woken : ∀ r, w.schedulers.get? s = some r → r.hooks.Woken (k r)) :
    Unmoved w
      { w with schedulers := w.schedulers.modify s fun r => { r with hooks := k r } } := by
  refine ⟨⟨rfl, rfl, rfl, rfl⟩, currentScheduler_of_modify s w _, fun j => ?_⟩
  unfold World.isStopping
  dsimp only
  rw [Table.get?_modify]
  by_cases hj : j = s
  · subst hj
    rw [if_pos rfl]
    cases hr : w.schedulers.get? j with
    | none => rfl
    | some r =>
      have woken := woken r hr
      dsimp only [Option.map_some]
      generalize k r = new at woken ⊢
      generalize r.hooks = old at woken ⊢
      cases woken with
      | parking p q => rfl
      | scripted idle stopping n m label => rfl
  · rw [if_neg hj]
    rfl

theorem tickle_unmoved (s : SchedulerId) (w : World) :
    ∃ w', (tickle s).on w = (.ok (), w') ∧ Unmoved w w' := by
  have known : ∀ {r h}, ((w.schedulers.get? s).getD default).hooks = h →
      w.schedulers.get? s = some r → r.hooks = h := by
    intro r h hooks found
    rwa [found] at hooks
  rw [tickle, Act.on_bind_ok (schedulerRecord_on s w)]
  split
  · next place hooks =>
    refine ⟨_, updateScheduler_on s _ w, unmoved_of_woken fun r found => ?_⟩
    rw [known hooks found]
    exact .parking _ _
  · next idle stopping n label hooks =>
    refine ⟨_, updateScheduler_on s _ w, unmoved_of_woken fun r found => ?_⟩
    rw [known hooks found]
    exact .scripted _ _ _ _ _
  · rw [Act.on_bind_get]
    split
    · next x _ =>
      have woken : Unmoved w { w with kernel := (w.kernel.wake x.epoll).1 } :=
        ⟨⟨rfl, rfl, rfl, rfl⟩, rfl, fun _ => rfl⟩
      rw [wakePoller, Act.on_bind_ok (kernel_on _ w)]
      split
      · exact ⟨_, Act.on_pure _ _, woken⟩
      · obtain ⟨w', logged, quiet⟩ :=
          log_quiet .error _ { w with kernel := (w.kernel.wake x.epoll).1 }
        exact ⟨w', logged, woken.trans quiet.unmoved⟩
    · exact ⟨w, rfl, .refl w⟩

theorem tickleTimes_unmoved (s : SchedulerId) (n : Nat) (w : World) :
    ∃ w', (tickleTimes s n).on w = (.ok (), w') ∧ Unmoved w w' := by
  induction n generalizing w with
  | zero => exact ⟨w, rfl, .refl w⟩
  | succ n ih =>
    obtain ⟨v, first, unmoved⟩ := tickle_unmoved s w
    obtain ⟨w', rest, unmoved'⟩ := ih v
    exact ⟨w', (Act.on_bind_ok first).trans rest, unmoved.trans unmoved'⟩

/-- The world after a change of what the workers of a scheduler share. -/
def World.withShared (w : World) (s : SchedulerId) (h : Shared Body → Shared Body) : World :=
  { w with schedulers := w.schedulers.modify s fun y => { y with shared := h y.shared } }

theorem updateShared_on (s : SchedulerId) (h : Shared Body → Shared Body) (w : World) :
    (updateShared s h).on w = (.ok (), w.withShared s h) := rfl

/-- The world in which a stop of a scheduler was asked for. -/
def World.asked (w : World) (s : SchedulerId) : World :=
  (w.withShared s Shared.askStop).withShared s Shared.beginStop

/-- A stop whose root fiber is on hold, up to the question whether to resume that fiber. -/
theorem stop_on {y : SchedulerRecord} (present : w.schedulers.get? s = some y)
    (root : y.root = some f) (mine : y.owner = some w.running)
    (hold : w.fibers.state f = .hold) :
    ∃ v, Unmoved (w.asked s) v ∧
      (stop s).on w =
        (if (w.asked s).isStopping s then pure (.done .null)
          else do
            retain (.fiber f)
            push (.release [.fiber f])
            resume f : Act Signal).on (v.pushed (.stopJoin s)) := by
  let z : SchedulerRecord := { y with shared := y.shared.askStop }
  let a : World := w.withShared s Shared.askStop
  have record : a.schedulers.get? s = some z := by
    change (w.schedulers.modify s _).get? s = _
    rw [Table.get?_modify, if_pos rfl, present]
    rfl
  have only : a.callerOnly z = false := by
    unfold World.callerOnly
    rw [show z.root = some f from root]
    dsimp only
    rw [show a.fibers.state f = .hold from hold]
    exact Bool.and_false _
  have lawful : a.stopFault? s z = none := by
    unfold World.stopFault?
    rw [show z.owner = some w.running from mine]
    exact if_pos rfl
  obtain ⟨v, tickled, unmoved⟩ := tickleTimes_unmoved s z.config.threads (w.asked s)
  refine ⟨v, unmoved, ?_⟩
  have held : (v.pushed (.stopJoin s)).fibers.state f = .hold := by
    rw [← hold]
    exact congrArg (FiberTable.state · f) unmoved.fibers
  have ends : (v.pushed (.stopJoin s)).isStopping s = (w.asked s).isStopping s :=
    unmoved.isStopping s
  rw [stop, Act.on_bind_ok (updateShared_on s _ w), Act.on_bind_ok (schedulerRecord_on s a),
    Act.on_bind_get, record, Option.getD_some]
  dsimp only
  rw [only, if_neg Bool.false_ne_true, stopWorkers, Act.on_bind_get, lawful]
  dsimp only
  rw [Act.on_bind_ok (updateShared_on s _ a)]
  refine (Act.on_bind_ok tickled).trans ((Act.on_bind_ok (push_on _ v)).trans ?_)
  rw [show z.root = some f from root]
  dsimp only
  rw [Act.on_bind_get, held, ends]
  cases (w.asked s).isStopping s with
  | true => rfl
  | false => rfl

theorem pushed_currentScheduler (thread : w.HasThread) (f : Frame) :
    (w.pushed f).currentScheduler = w.currentScheduler := by
  have same : (w.pushed f).thread.scheduler = w.thread.scheduler := by
    rw [(pushed_thread thread f).2]
  unfold World.currentScheduler
  rw [same]
  rfl

/-- A resume for whose time another handle of the fiber is held. -/
theorem retained_reenters {act : Act Signal} {v : World} (thread : v.HasThread)
    (running : v.thread.current = some c) (holding : v.fibers.Holding f g r) (other : f ≠ c)
    (inner : v.fibers.get? g = some x) (gated : r.gated v.currentScheduler.isSome = false)
    (fibers : v.fibers = w.fibers) (saved : v.saved = w.saved)
    (goes : act.on w =
      (do
        retain (.fiber f)
        push (.release [.fiber f])
        resume f : Act Signal).on v) :
    w.Reenters act c f g x.yielded (.release [.fiber f] :: v.thread.frames) := by
  let u : World := { v with fibers := v.fibers.retain f }
  obtain ⟨has, pushed⟩ := pushed_thread (w := u) thread (.release [.fiber f])
  have counted : u.fibers.Holding f g { r with handles := r.handles + 1 } := by
    refine ⟨?_, holding.hold, holding.awaits, holding.apart⟩
    change (v.fibers.modify f _).get? f = _
    rw [FiberTable.get?_modify, if_pos rfl, holding.found]
    rfl
  have awaited : u.fibers.get? g = some x := by
    change (v.fibers.modify f _).get? g = _
    rw [FiberTable.get?_modify, if_neg holding.apart, inner]
  have same : ∀ id, u.fibers.standing id = w.fibers.standing id := by
    intro id
    rw [← fibers]
    exact FiberTable.standing_modify_same _ _ _ fun _ => rfl
  have current : (u.pushed (.release [.fiber f])).thread.current = some c := by
    rw [pushed]
    exact running
  have free : FiberRecord.gated { r with handles := r.handles + 1 }
      (u.pushed (.release [.fiber f])).currentScheduler.isSome = false := by
    rw [pushed_currentScheduler (w := u) thread]
    exact gated
  have reenters := resume_reenters has current counted other awaited free same saved goes
  rw [pushed] at reenters
  exact reenters

/-- A stop that leaves the root fiber alone. -/
structure World.Spares (w : World) (s : SchedulerId) : Prop where
  told : (w.perform (stop s)).1 = .done .null
  fibers : (w.perform (stop s)).2.fibers = w.fibers
  saved : (w.perform (stop s)).2.saved = w.saved
  thread : (w.perform (stop s)).2.thread =
    { w.thread with frames := .stopJoin s :: w.thread.frames }

/-- A fiber that waits for another one is kept from being resumed by the rules that do not look at
its state, and by no others. Where they do not apply, a resume of it re-enters it, and so does a
stop of the scheduler whose root fiber it is, unless the stop finds that the run loops may end. -/
theorem waiting_fiber_reentered_unless_gated (thread : w.HasThread)
    (running : w.thread.current = some c) (holding : w.fibers.Holding f g r) (other : f ≠ c)
    (inner : w.fibers.get? g = some x) :
    (w.Rejects (resume f) ↔ r.gated w.currentScheduler.isSome = true) ∧
      (r.gated w.currentScheduler.isSome = false →
        w.Reenters (resume f) c f g x.yielded w.thread.frames ∧
          ∀ s y, w.schedulers.get? s = some y → y.root = some f → y.owner = some w.running →
            ((w.asked s).isStopping s = true → w.Spares s) ∧
              ((w.asked s).isStopping s = false →
                w.Reenters (stop s) c f g x.yielded
                  (.release [.fiber f] :: .stopJoin s :: w.thread.frames))) := by
  have reenters : r.gated w.currentScheduler.isSome = false →
      w.Reenters (resume f) c f g x.yielded w.thread.frames := fun gated =>
    resume_reenters thread running holding other inner gated (fun _ => rfl) rfl rfl
  refine ⟨⟨?_, ?_⟩, fun gated => ⟨reenters gated, ?_⟩⟩
  · rintro ⟨v, w', rejected, _⟩
    by_contra gated
    have told := (reenters (Bool.not_eq_true _ ▸ gated)).told
    rw [rejected] at told
    cases told
  · intro gated
    obtain ⟨v, rejected⟩ := holding.resume_gated gated w.thread.current
    obtain ⟨w', ended, quiet⟩ := followOr_error v w
    have done : (resume f).on w = (.error (.panic (.violation v)), w') := by
      rw [resume_on, rejected, ended]
    exact ⟨v, w', perform_of_panic done, quiet⟩
  · intro s y present root mine
    have hold : w.fibers.state f = .hold := by
      rw [FiberTable.state, holding.found]
      exact holding.hold
    obtain ⟨v, unmoved, stops⟩ := stop_on present root mine hold
    have fibers : v.fibers = w.fibers := unmoved.fibers
    have thread' : v.thread = w.thread := unmoved.thread
    have has : v.HasThread := by
      unfold World.HasThread
      rw [unmoved.threads, unmoved.running]
      exact thread
    obtain ⟨has', pushed⟩ := pushed_thread has (.stopJoin s)
    constructor
    · intro ends
      rw [ends, if_pos rfl] at stops
      have ended := perform_of_ok stops
      exact ⟨by rw [ended], by rw [ended]; exact fibers, by rw [ended]; exact unmoved.saved,
        by rw [ended, pushed, thread']⟩
    · intro goes
      rw [goes, if_neg Bool.false_ne_true] at stops
      have running' : (v.pushed (.stopJoin s)).thread.current = some c := by
        rw [pushed, thread']
        exact running
      have holding' : (v.pushed (.stopJoin s)).fibers.Holding f g r := by
        change v.fibers.Holding f g r
        rw [fibers]
        exact holding
      have gated' : r.gated (v.pushed (.stopJoin s)).currentScheduler.isSome = false := by
        have same : (w.asked s).currentScheduler = w.currentScheduler :=
          (currentScheduler_of_modify s _ _).trans (currentScheduler_of_modify s w _)
        rw [pushed_currentScheduler has, unmoved.currentScheduler, same]
        exact gated
      have inner' : (v.pushed (.stopJoin s)).fibers.get? g = some x := by
        change v.fibers.get? g = some x
        rw [fibers, inner]
      have reenters := retained_reenters has' running' holding' other inner' gated' fibers
        unmoved.saved stops
      rw [pushed, thread'] at reenters
      exact reenters

/-- In every world that a run reaches, the fibers on the links are such fibers. -/
theorem Reaches.holding {start : World} {history : List Resumption} (unused : Unused start)
    (run : Reaches start history w) (running : w.thread.current = some c) :
    ∃ links, Waits w.fibers.standing c links ∧
      ∀ f ∈ links, f ≠ c ∧ ∃ g r x, w.fibers.Holding f g r ∧ w.fibers.get? g = some x := by
  obtain ⟨links, inv⟩ := run.invariant unused
  have ordered : w.fibers.Ordered c links := by
    have orderly := inv.orderly
    rwa [running] at orderly
  refine ⟨links, ordered.waits, fun f on => ⟨?_, ?_⟩⟩
  · rintro rfl
    exact (List.nodup_cons.mp ordered.nodup).1 on
  · obtain ⟨g, r, mem, holding⟩ := ordered.waits.holding ordered.nodup on
    obtain ⟨s, known⟩ : ∃ s, w.fibers.standing g = some s := by
      rcases List.mem_cons.mp mem with rfl | mem
      · exact ordered.waits.found
      · obtain ⟨s, known, _⟩ := ordered.waits.held mem
        exact ⟨s, known⟩
    obtain ⟨x, found, _⟩ := FiberTable.get?_of_standing known
    exact ⟨g, r, x, holding, found⟩

/-- A callback stops the scheduler whose root fiber runs it. -/
def innerStopScript : Program :=
  ⟨#[[.perform "sched_new" (.scheduler (.new "s" ⟨false, .empty, []⟩ none)),
      .perform "start" (.scheduler (.start "s")),
      .perform "schedule" (.scheduler (.schedule "s" (.callback (.block 1) none))),
      .perform "stop" (.scheduler (.stop "s"))],
    [.perform "stop" (.scheduler (.stop "s"))]]⟩

/-- The script where the callback is about to stop the scheduler. -/
def innerStopWorld : World :=
  (World.start innerStopScript .frozen .empty .fresh false none "main").runUpTo 13

theorem innerStopWorld_root : ∃ y, innerStopWorld.schedulers.get? 1 = some y ∧
    y.root = some ⟨1⟩ ∧ y.owner = some innerStopWorld.running := by
  have known : (innerStopWorld.schedulers.get? 1).map (fun y => (y.root, y.owner)) =
      some (some ⟨1⟩, some innerStopWorld.running) := by decide +kernel
  obtain ⟨y, present, both⟩ := Option.map_eq_some_iff.mp known
  exact ⟨y, present, congrArg Prod.fst both, congrArg Prod.snd both⟩

/-- The main fiber, which waits for the root fiber, is not resumed. The root fiber, which waits for
the callback, is resumed by the stop. -/
theorem inner_stop_reenters_root :
    innerStopWorld.thread.current = some ⟨4⟩ ∧ innerStopWorld.Rejects (resume ⟨2⟩) ∧
      innerStopWorld.Reenters (stop 1) ⟨4⟩ ⟨1⟩ ⟨4⟩ .init
        (.release [.fiber ⟨1⟩] :: .stopJoin 1 :: innerStopWorld.thread.frames) := by
  have thread : innerStopWorld.HasThread := Option.isSome_iff_exists.mp (by decide +kernel)
  have running : innerStopWorld.thread.current = some ⟨4⟩ := by decide +kernel
  have main : innerStopWorld.fibers.standing ⟨2⟩ = some ⟨true, .hold, none, some ⟨1⟩⟩ := by
    decide +kernel
  have root : innerStopWorld.fibers.standing ⟨1⟩ =
      some ⟨false, .hold, some ⟨2⟩, some ⟨4⟩⟩ := by decide +kernel
  have ungated : (innerStopWorld.fibers.get? ⟨1⟩).map
      (·.gated innerStopWorld.currentScheduler.isSome) = some false := by decide +kernel
  have asked : (innerStopWorld.fibers.get? ⟨4⟩).map (·.yielded) = some .init := by decide +kernel
  have goes : (innerStopWorld.asked 1).isStopping 1 = false := by decide +kernel
  obtain ⟨q, heldMain⟩ := FiberTable.holding_of_standing main rfl rfl (by decide)
  obtain ⟨r, heldRoot⟩ := FiberTable.holding_of_standing root rfl rfl (by decide)
  obtain ⟨x, called, yielded⟩ := Option.map_eq_some_iff.mp asked
  obtain ⟨y, present, isRoot, mine⟩ := innerStopWorld_root
  have closed : q.gated innerStopWorld.currentScheduler.isSome = true := by
    obtain ⟨q', found, standing⟩ := FiberTable.get?_of_standing main
    obtain rfl := Option.some.inj (found.symm.trans heldMain.found)
    have isMain : q'.isMain = true := congrArg Standing.isMain standing
    rw [FiberRecord.gated, isMain, Bool.true_or]
  have free : r.gated innerStopWorld.currentScheduler.isSome = false := by
    rw [heldRoot.found] at ungated
    exact Option.some.inj ungated
  refine ⟨running, ?_, ?_⟩
  · exact (waiting_fiber_reentered_unless_gated thread running heldMain (by decide)
      heldRoot.found).1.mpr closed
  · have stops := (waiting_fiber_reentered_unless_gated thread running heldRoot (by decide)
      called).2 free
    rw [← yielded]
    exact (stops.2 1 y present isRoot mine).2 goes

/-- A fiber that another one resumed resumes that one. -/
def nestedScript : Program :=
  ⟨#[[.perform "spawn" (.fiber (.spawn "a" ⟨.block 1, none, some false, false, none⟩)),
      .perform "spawn" (.fiber (.spawn "b" ⟨.block 2, none, some false, false, none⟩)),
      .perform "resume" (.fiber (.resume "a")),
      .perform "state" (.fiber (.state "a")),
      .perform "state" (.fiber (.state "b"))],
    [.perform "resume" (.fiber (.resume "b")), .perform "log" (.fiber (.log (.text "a goes on")))],
    [.perform "resume" (.fiber (.resume "a")), .perform "log" (.fiber (.log (.text "b goes on")))]]⟩

def nestedAfter (rounds : Nat) : World :=
  (World.start nestedScript .frozen .empty .fresh false none "main").runUpTo rounds

/-- Where the inner fiber is about to resume the outer one, that one waits for it, and the resume is
not rejected. The resume by which it waits answers a state in which no fiber leaves, and the program
ends in an abort. -/
theorem nested_resume_is_accepted :
    Waits (nestedAfter 8).fibers.standing ⟨2⟩ [⟨1⟩, ⟨3⟩] ∧
      (nestedAfter 8).thread.current = some ⟨2⟩ ∧
      ¬(nestedAfter 8).Rejects (resume ⟨1⟩) ∧
      (nestedAfter 60).aborted = true ∧
      (nestedAfter 60).reports.map (fun a => (a.1, a.2.compact)) =
        [("spawn", "1"), ("spawn", "2"), ("resume", "\"INIT\""), ("log", "\"a goes on\""),
          ("resume", "\"TERM\""), ("log", "\"b goes on\"")] := by
  have inner : (nestedAfter 8).fibers.standing ⟨2⟩ = some ⟨false, .exec, some ⟨1⟩, none⟩ := by
    decide +kernel
  have outer : (nestedAfter 8).fibers.standing ⟨1⟩ = some ⟨false, .hold, some ⟨3⟩, some ⟨2⟩⟩ := by
    decide +kernel
  have main : (nestedAfter 8).fibers.standing ⟨3⟩ = some ⟨true, .hold, none, some ⟨1⟩⟩ := by
    decide +kernel
  have waits : Waits (nestedAfter 8).fibers.standing ⟨2⟩ [⟨1⟩, ⟨3⟩] :=
    .link inner rfl rfl outer rfl rfl (.link outer rfl rfl main rfl rfl (.main main rfl rfl))
  have thread : (nestedAfter 8).HasThread := Option.isSome_iff_exists.mp (by decide +kernel)
  have running : (nestedAfter 8).thread.current = some ⟨2⟩ := by decide +kernel
  have ungated : ((nestedAfter 8).fibers.get? ⟨1⟩).map
      (·.gated (nestedAfter 8).currentScheduler.isSome) = some false := by decide +kernel
  obtain ⟨r, holding⟩ := FiberTable.holding_of_standing outer rfl rfl (by decide)
  obtain ⟨x, called, _⟩ := FiberTable.get?_of_standing inner
  have free : r.gated (nestedAfter 8).currentScheduler.isSome = false := by
    rw [holding.found] at ungated
    exact Option.some.inj ungated
  refine ⟨waits, running, ?_, by decide +kernel, by decide +kernel⟩
  rintro ⟨v, w', rejected, _⟩
  have told := (resume_reenters thread running holding (by decide) called free (fun _ => rfl) rfl
    rfl).told
  rw [rejected] at told
  cases told

end Script

end Fibers
