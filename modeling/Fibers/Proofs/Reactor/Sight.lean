import Fibers.Proofs.Reactor.Refinement
import Fibers.Proofs.Reactor.Steady
import Mathlib.Logic.Relation

/-!
What can be seen of a reactor and its set of descriptors: the masks of its table, the descriptors,
and the set. A request changes it in small steps. In a step the mask of one number changes together
with the set, which was told so, or the wake counter of the set changes and nothing else.
-/

namespace Fibers.Script

open Reactor (Registry)
open Reactor.FdTable (Moves)
open Kernel (Deed Epoll)

structure Sight where
  mask : Int → Event
  descriptors : Kernel.Descriptors
  set : Epoll

/-- A reactor has its set of descriptors to itself, and is seen so. -/
structure World.Shows (w : World) (r : ReactorId) (s : Sight) : Prop where
  descriptors : w.kernel.descriptors = s.descriptors
  reactor : ∃ x, w.reactors.get? r = some x ∧ x.table.mask = s.mask ∧
    w.kernel.epolls.get? x.epoll = some s.set ∧
    ∀ j y, j ≠ r → w.reactors.get? j = some y → y.epoll ≠ x.epoll

inductive Sight.Step (s : Sight) : Sight → Prop where
  | alike {set : Epoll} (same : s.set.Alike set) : Step s { s with set := set }
  | told {set : Epoll} (fd : Int) (after : Event)
      (some : (s.mask fd).isEmpty = false ∨ after.isEmpty = false)
      (ok : s.set.tell s.descriptors fd (s.mask fd) after = .ok set) :
      Step s ⟨Epoll.changed s.mask fd after, s.descriptors, set⟩

abbrev Sight.Steps : Sight → Sight → Prop := Relation.ReflTransGen Sight.Step

/-- The registrations of the set are those of the masks, over sound descriptors. -/
structure Sight.Agrees (s : Sight) : Prop where
  sound : s.descriptors.Sound
  set : s.set.Agrees s.descriptors s.mask

section Shows

variable {r : ReactorId} {w w' : World} {s s' : Sight} {x : ReactorRecord} {k : Kernel.State}
  {t : Reactor.FdTable Handler}

theorem Sight.Step.agrees (step : s.Step s') (h : s.Agrees) : s'.Agrees := by
  cases step with
  | alike same => exact ⟨h.sound, h.set.congr same.registered⟩
  | told fd after some ok => exact ⟨h.sound, Epoll.tell_agrees h.set some ok⟩

theorem Sight.Steps.agrees (steps : s.Steps s') (h : s.Agrees) : s'.Agrees := by
  induction steps with
  | refl => exact h
  | tail _ step ih => exact step.agrees ih

/-- What is seen of a reactor is one thing. -/
theorem World.Shows.unique (h : w.Shows r s) (g : w.Shows r s') : s = s' := by
  obtain ⟨x, found, mask, set, -⟩ := h.reactor
  obtain ⟨y, found', mask', set', -⟩ := g.reactor
  obtain rfl := Option.some.inj (found.symm.trans found')
  have masks := mask.symm.trans mask'
  have sets := Option.some.inj (set.symm.trans set')
  have descriptors := h.descriptors.symm.trans g.descriptors
  cases s
  cases s'
  simp_all

/-- A deed beside a reactor. -/
theorem World.Shows.doing (h : w.Shows r s) (deed : Deed) :
    ∃ set, Kernel.Turns (deed.closes s.descriptors) (s.descriptors, s.set)
        ((w.kernel.doing deed).descriptors, set) ∧
      World.Shows { w with kernel := w.kernel.doing deed } r
        ⟨s.mask, (w.kernel.doing deed).descriptors, set⟩ := by
  obtain ⟨x, found, mask, set, own⟩ := h.reactor
  obtain ⟨e, found', turns⟩ := Kernel.State.doing_goes w.kernel deed x.epoll s.set set
  rw [h.descriptors] at turns
  exact ⟨e, turns, rfl, x, found, mask, found', own⟩

/-- Effects that leave tables and sets alone do not change what is seen. -/
theorem World.Shows.steady (shows : w.Shows r s) (steady : Steady w w')
    (alive : w'.HeldBesides 0 r) : ∃ set, s.set.Alike set ∧ w'.Shows r { s with set := set } := by
  obtain ⟨x', found', -⟩ := alive
  obtain ⟨x, found, table, epoll⟩ := steady.reactor r x' found'
  obtain ⟨y, same, mask, set, own⟩ := shows.reactor
  obtain rfl := Option.some.inj (found.symm.trans same)
  have apart : ∀ j y, w.reactors.get? j = some y → w'.reactors.get? j = none →
      y.epoll ≠ x.epoll := by
    intro j y there gone
    refine own j y ?_ there
    rintro rfl
    rw [found'] at gone
    cases gone
  obtain ⟨e, later, alike⟩ := steady.epoll _ _ set apart
  refine ⟨e, alike, steady.descriptors.trans shows.descriptors, x', found', ?_, ?_, ?_⟩
  · rw [table, mask]
  · rw [epoll, later]
  · intro j y' other there
    obtain ⟨y, before, -, same⟩ := steady.reactor j y' there
    rw [same, epoll]
    exact own j y other before

/-- What is seen after work on the table. -/
theorem World.Shows.worked (shows : w.Shows r s) (found : w.reactors.get? r = some x)
    (descriptors : k.descriptors = w.kernel.descriptors) {set : Epoll}
    (later : k.epolls.get? x.epoll = some set) :
    (w.withTable r k t).Shows r ⟨t.mask, s.descriptors, set⟩ := by
  obtain ⟨y, same, -, -, own⟩ := shows.reactor
  obtain rfl := Option.some.inj (found.symm.trans same)
  refine ⟨descriptors.trans shows.descriptors, _, withTable_get? found k t, rfl, later, ?_⟩
  intro j y other there
  refine own j y other ?_
  change (w.reactors.modify r _).get? j = some y at there
  rwa [Table.get?_modify, if_neg other] at there

/-- The poller agreed, and the masks followed. -/
theorem World.Shows.agreed (shows : w.Shows r s) (found : w.reactors.get? r = some x) {fd : Int}
    {after : Event}
    (told : (Reactor.epollPoller x.epoll).tell w.kernel fd (x.table.mask fd) after = (k, .ok ()))
    (masks : ∀ j, t.mask j = if j = fd then after else x.table.mask j) :
    ∃ set, s.set.tell s.descriptors fd (s.mask fd) after = .ok set ∧
      (w.withTable r k t).Shows r ⟨Epoll.changed s.mask fd after, s.descriptors, set⟩ := by
  obtain ⟨y, same, mask, set, -⟩ := shows.reactor
  obtain rfl := Option.some.inj (found.symm.trans same)
  obtain ⟨e, e', before, ok, rfl⟩ := Kernel.State.tell_ok told
  obtain rfl := Option.some.inj (before.symm.trans set)
  rw [mask, shows.descriptors] at ok
  have seen : t.mask = Epoll.changed s.mask fd after := by
    funext j
    rw [masks j, mask]
    rfl
  refine ⟨e', ok, ?_⟩
  rw [← seen]
  exact shows.worked found (k := { w.kernel with epolls := w.kernel.epolls.put x.epoll e' }) rfl
    (Table.get?_put_self ..)

/-- The table moved on with its poller. -/
theorem World.Shows.moves (shows : w.Shows r s) (found : w.reactors.get? r = some x)
    (moves : Moves (Reactor.epollPoller x.epoll) w.kernel x.table k t) :
    ∃ s', s.Steps s' ∧ (w.withTable r k t).Shows r s' := by
  obtain ⟨y, same, mask, set, -⟩ := shows.reactor
  obtain rfl := Option.some.inj (found.symm.trans same)
  cases moves with
  | stays =>
    have later := shows.worked (t := x.table) found rfl set
    rw [mask] at later
    exact ⟨s, .refl, later⟩
  | asks fd after some asked =>
    rw [mask] at some
    cases asked with
    | refused told =>
      obtain ⟨descriptors, epolls, -⟩ := Kernel.State.tell_failed told
      have later := shows.worked (t := x.table) found descriptors (epolls ▸ set)
      rw [mask] at later
      exact ⟨s, .refl, later⟩
    | agreed told masks =>
      obtain ⟨set', ok, later⟩ := shows.agreed found told masks
      exact ⟨_, .single (.told fd after some ok), later⟩

/-- The table moved on with its poller, and other effects followed. -/
theorem World.Shows.leads (shows : w.Shows r s) (found : w.reactors.get? r = some x)
    (moves : Moves (Reactor.epollPoller x.epoll) w.kernel x.table k t)
    (steady : Steady (w.withTable r k t) w') (alive : w'.HeldBesides 0 r) :
    ∃ s', s.Steps s' ∧ w'.Shows r s' := by
  obtain ⟨s₁, steps, seen⟩ := shows.moves found moves
  obtain ⟨set, alike, later⟩ := seen.steady steady alive
  exact ⟨_, steps.tail (.alike alike), later⟩

theorem reserve_mask {t' : Reactor.FdTable Handler} {grown : Option Nat} {fd : Int}
    (reserved : t.reserve fd = .ok (t', grown)) : t'.mask = t.mask := by
  unfold Reactor.FdTable.reserve at reserved
  split at reserved
  · cases reserved
  · split at reserved
    · obtain ⟨rfl, -⟩ := Prod.mk.inj (Except.ok.inj reserved)
      rfl
    · dsimp only at reserved
      split at reserved
      · obtain ⟨rfl, -⟩ := Prod.mk.inj (Except.ok.inj reserved)
        rfl
      · cases reserved

end Shows

theorem perform_snd (act : Act Signal) (w : World) : (w.perform act).2 = (act.on w).2 := by
  change (match act.on w with
    | (.ok s, w) => (s, w)
    | (.error (.panic p), w) => (Signal.raised p, w)
    | (.error (.failure f), w) => (Signal.failed f, w)).2 = _
  rcases act.on w with ⟨⟨_ | _⟩ | _, _⟩ <;> rfl

variable {io : Manager} {w : World} {m : Registry Handler} {s : Sight} {x : ReactorRecord}

/-- A request that disarms events. -/
theorem disarm_shows (manages : Manages io w) (shows : w.Shows io.reactor s)
    (found : w.reactors.get? io.reactor = some x) {act : Act Signal}
    {f : Reactor.Poller Kernel.State → Kernel.State → Reactor.FdTable Handler →
      Kernel.State × Reactor.FdTable Handler × Reactor.FdTable.Disarmed Handler}
    {what : String} {finish : List Handler → Act Unit}
    (eq : act = reactorNamed io.name >>= fun n => onTable n.2 f >>= disarmed what finish)
    (moves : Moves (Reactor.epollPoller x.epoll) w.kernel x.table
      (f (Reactor.epollPoller x.epoll) w.kernel x.table).1
      (f (Reactor.epollPoller x.epoll) w.kernel x.table).2.1)
    (finishes : ∀ hs, (finish hs).Steadily) (alive : ((act.on w).2).HeldBesides 0 io.reactor) :
    ∃ s', s.Steps s' ∧ (act.on w).2.Shows io.reactor s' := by
  refine shows.leads found moves ?_ alive
  rw [eq, Act.on_bind_ok (reactorNamed_on manages), Act.on_bind_ok (onTable_on found rfl)]
  exact disarmed_steadily what finishes _ _

theorem add_shows (manages : Manages io w) (shows : w.Shows io.reactor s)
    (found : w.reactors.get? io.reactor = some x) (fd : Int) (e : Event) (task : Task Body)
    (alive : ((addEvent io.scheduler io.reactor fd e (some task)).on w).2.HeldBesides 0
      io.reactor) :
    ∃ s', s.Steps s' ∧
      ((addEvent io.scheduler io.reactor fd e (some task)).on w).2.Shows io.reactor s' := by
  have unchanged (steady : Steady w
      ((addEvent io.scheduler io.reactor fd e (some task)).on w).2) :
      ∃ s', s.Steps s' ∧
        ((addEvent io.scheduler io.reactor fd e (some task)).on w).2.Shows io.reactor s' := by
    obtain ⟨set, alike, later⟩ := shows.steady steady alive
    exact ⟨_, .single (.alike alike), later⟩
  cases single : e.isSingle with
  | false =>
    apply unchanged
    have steady := violateReleasing_steadily (α := PUnit) (.eventNotSingle e) (taskHandles task) w
    obtain ⟨-, w', -, -, violated, -⟩ :=
      violateReleasing_on (α := PUnit) (.eventNotSingle e) (taskHandles_free task) w
    have run : (addEvent io.scheduler io.reactor fd e (some task)).on w =
        (.error (.panic (.violation (.eventNotSingle e))), w') := by
      unfold addEvent
      simp only [single, Bool.not_false, if_true]
      exact Act.on_bind_error violated
    rw [run]
    rwa [violated] at steady
  | true =>
    cases reserved : x.table.reserve fd with
    | error fault =>
      apply unchanged
      unfold addEvent
      simp only [single, Bool.not_true, if_false, Bool.false_eq_true]
      rw [Act.on_bind_ok (reactorRecord_on found), reserved]
      exact Act.Steadily.bind (release_steadily _) (fun _ => .throw _) w
    | ok res =>
      obtain ⟨t, grown⟩ := res
      obtain ⟨v, quiet, run⟩ := addEvent_on found io.scheduler single reserved task
      obtain ⟨y, same, mask, set, -⟩ := shows.reactor
      obtain rfl := Option.some.inj (found.symm.trans same)
      have grew := shows.worked (t := t) found rfl set
      rw [reserve_mask reserved, mask] at grew
      have found' : v.reactors.get? io.reactor = some { x with table := t } := by
        rw [quiet.reactors, withTable_get? found w.kernel t]
      have held := quiet.appends.held _ _ (withTable_held manages.held w.kernel t)
      obtain ⟨set', alike, seen⟩ := grew.steady (.quiet quiet) held
      rw [run, Act.on_bind_ok (onTable_on found' rfl)] at alive ⊢
      let handler : Handler := ⟨w.currentScheduler.getD io.scheduler, task⟩
      have moves : Moves (Reactor.epollPoller x.epoll) v.kernel t
          (t.arm (Reactor.epollPoller x.epoll) v.kernel fd e handler).1
          (t.arm (Reactor.epollPoller x.epoll) v.kernel fd e handler).2.1 :=
        Reactor.FdTable.arm_moves single handler
      obtain ⟨s', steps, later⟩ := seen.leads found' moves (armed_steadily fd task _ _ _) alive
      exact ⟨s', .head (.alike alike) steps, later⟩

/-- The first record of a report, on its own. -/
theorem dispatch_one_on {r : ReactorId} (found : w.reactors.get? r = some x) {fd : Int} {e : Event}
    {k : Kernel.State} {t : Reactor.FdTable Handler} {d : Reactor.FdTable.Dispatched Handler}
    (res : x.table.dispatch (Reactor.epollPoller x.epoll) w.kernel fd e = (k, t, d)) :
    (dispatch r [(fd, e)]).on w = (reported fd d).on (w.withTable r k t) := by
  have last : dispatch r [] = pure () := rfl
  rw [dispatch_cons, last, bind_pure_unit, Act.on_bind_ok (onTable_on found res)]

theorem report_shows (manages : Manages io w)
    (holds : ∀ x, w.reactors.get? io.reactor = some x → x.table.Holds m)
    (shows : w.Shows io.reactor s) (found : List (Int × Event)) :
    ∃ s', s.Steps s' ∧ ((dispatch io.reactor found).on w).2.Shows io.reactor s' := by
  induction found generalizing w m s with
  | nil => exact ⟨s, .refl, shows⟩
  | cons record found ih =>
    obtain ⟨fd, e⟩ := record
    obtain ⟨x, some, -⟩ := id manages.held
    obtain ⟨v, first, leads⟩ := record_leads manages some (holds x some) fd e rfl
    have one : v = ((dispatch io.reactor [(fd, e)]).on w).2 := (congrArg Prod.snd (first [])).symm
    obtain ⟨s₁, steps, seen⟩ : ∃ s₁, s.Steps s₁ ∧ v.Shows io.reactor s₁ := by
      refine shows.leads some (Reactor.FdTable.dispatch_moves fd e) ?_ leads.manages.held
      rw [one, dispatch_one_on some rfl]
      exact reported_steadily fd _ _
    obtain ⟨s', steps', later⟩ := ih leads.manages leads.table seen
    exact ⟨s', steps.trans steps', by rwa [first found]⟩

/-- A request changes what is seen in steps. -/
theorem request_shows (manages : Manages io w)
    (holds : ∀ x, w.reactors.get? io.reactor = some x → x.table.Holds m)
    (shows : w.Shows io.reactor s) (q : Request) (allowed : q.Allowed io w) :
    ∃ s', s.Steps s' ∧ (w.perform (q.act io)).2.Shows io.reactor s' := by
  have alive := (request_served manages holds q allowed).leads.manages.held
  obtain ⟨x, found, -⟩ := id manages.held
  rw [perform_snd] at alive ⊢
  cases q with
  | add fd e task => exact add_shows manages shows found fd e task alive
  | delete fd e =>
    exact disarm_shows manages shows found rfl (Reactor.FdTable.delete_moves fd e)
      (fun hs => release_steadily _) alive
  | cancel fd e =>
    exact disarm_shows manages shows found rfl (Reactor.FdTable.cancel_moves fd e)
      fireAll_steadily alive
  | cancelAll fd =>
    exact disarm_shows manages shows found rfl (Reactor.FdTable.cancelAll_moves fd)
      fireAll_steadily alive
  | dispatch reported =>
    obtain ⟨s', steps, later⟩ := report_shows manages holds shows reported
    obtain ⟨w', dispatched, -⟩ := report_leads manages holds reported
    have run : ((Request.dispatch reported).act io).on w = (.ok (.done .null), w') :=
      Act.on_bind_ok dispatched
    rw [dispatched] at later
    exact ⟨s', steps, by rwa [run]⟩

/-- An empty table and an empty set agree. -/
theorem agrees_fresh {start : World} (fresh : ∀ x, start.reactors.get? io.reactor = some x →
      ∃ n, Reactor.FdTable.fresh n = .ok x.table)
    (shows : start.Shows io.reactor s) (sound : s.descriptors.Sound)
    (unwatched : s.set.registered = []) : s.Agrees := by
  have blank : ∀ fd, s.mask fd = .none := by
    intro fd
    obtain ⟨x, found, mask, -⟩ := shows.reactor
    obtain ⟨n, made⟩ := fresh x found
    rw [← mask]
    simp only [Reactor.FdTable.fresh] at made
    split at made
    · rw [← Except.ok.inj made]
      rfl
    · cases made
  refine ⟨sound, fun fd _ => ?_, fun fd some => ?_⟩
  · simp [Epoll.of, unwatched]
  · rw [blank] at some
    cases some

/-- What is seen of the reactor that watches nothing yet. -/
def watchingSight : Sight := ⟨fun _ => .none, watchingWorld.kernel.descriptors, .fresh 8⟩

theorem watchingWorld_shows : watchingWorld.Shows watcher.reactor watchingSight := by
  refine ⟨rfl, _, rfl, rfl, rfl, fun j y other there => ?_⟩
  have none : watchingWorld.reactors.get? j = .none := Table.get?_put_other _ _ other
  rw [none] at there
  cases there

theorem watchingSight_sound : watchingSight.descriptors.Sound :=
  Kernel.Descriptors.empty_sound.openPipe 3 4

end Fibers.Script
