import Fibers.Proofs.Fiber.Switching
import Fibers.Proofs.Reactor.Reporting

/-!
No readiness is lost. `no_readiness_lost` says that after any requests, any deeds that close no
armed number, any rounds of the idle fiber and any other code between them, everything armed that is
ready has its place in the ready queue; that a wait reports it or moves it on to the front by a full
batch; and that every record that a wait reports has to do with what is armed and fires a handler.
-/

namespace Fibers.Kernel

/-- Who waits for an event that a file has is reported this event. -/
theorem Readiness.reports {r : Readiness} {mask ev : Event} (single : ev.isSingle = true)
    (armed : mask.contains ev = true) (has : r.event.contains ev = true) :
    r.readyFor mask = true ∧ (r.masked mask).event.contains ev = true := by
  rw [readyFor_iff]
  change _ ∧ Event.contains (if r.error || r.hangup then Event.both
    else ⟨r.input && mask.read, r.output && mask.write⟩) ev = true
  change Event.contains (if r.error || r.hangup then _ else _) ev = true at has
  by_cases loud : (r.error || r.hangup) = true
  · rw [if_pos loud] at has ⊢
    rw [Bool.or_eq_true] at loud
    exact ⟨.inr (.inr loud), has⟩
  · rw [if_neg loud] at has ⊢
    rcases Event.eq_of_isSingle single with rfl | rfl
    · simp_all [Event.contains, Event.readable, Event.without, Event.isEmpty]
    · simp_all [Event.contains, Event.writable, Event.without, Event.isEmpty]

end Fibers.Kernel

namespace Fibers.Script

open Reactor (Registry)
open Kernel (Deed Epoll)

/-- Other code may do anything but touch the table, the descriptors and what the reactor's set of
descriptors watches and has to report; deeds may do anything with descriptors but close a number of
which something is armed. -/
inductive Pass (io : Manager) (w : World) : World → Prop where
  | elsewhere {w' : World} {s : Sight} {set : Epoll} (manages : Manages io w')
      (before : w.Shows io.reactor s) (after : w'.Shows io.reactor { s with set := set })
      (same : s.set.Alike set)
      (table : ∀ x x', w.reactors.get? io.reactor = some x →
        w'.reactors.get? io.reactor = some x' → x'.table = x.table) : Pass io w w'
  | deed {s : Sight} (shows : w.Shows io.reactor s) (deed : Deed)
      (free : ∀ fd ∈ deed.closes s.descriptors, (s.mask fd).isEmpty = true) :
      Pass io w { w with kernel := w.kernel.doing deed }

abbrev Meanwhile (io : Manager) : World → World → Prop := Relation.ReflTransGen (Pass io)

/-- A reactor holds the handlers of a registry, and its set of descriptors has a place for all that
is ready, but for the numbers `out`. -/
structure Watching (io : Manager) (m : Registry Handler) (s : Sight) (out : List Int) (w : World) :
    Prop where
  manages : Manages io w
  holds : ∀ x, w.reactors.get? io.reactor = some x → x.table.Holds m
  shows : w.Shows io.reactor s
  vigilant : s.Vigilant out

variable {io : Manager} {start w w' w₁ w₂ v : World} {m : Registry Handler} {s : Sight}
  {out : List Int} {x : ReactorRecord} {found : List (Int × Event)} {callbacks : List TimerBody}

theorem Watching.mask (h : Watching io m s out w) : s.mask = m.armed := by
  obtain ⟨x, there, mask, -⟩ := h.shows.reactor
  funext fd
  rw [← mask]
  exact congrArg Reactor.Slot.armed ((h.holds x there).slot fd)

theorem Pass.watching (pass : Pass io w w') (h : Watching io m s out w) :
    ∃ s', Watching io m s' out w' := by
  cases pass with
  | elsewhere manages before after same table =>
    obtain rfl := before.unique h.shows
    refine ⟨_, manages, fun x' there' => ?_, after, Sight.Step.vigilant (.alike same) h.vigilant⟩
    obtain ⟨x, there, -⟩ := before.reactor
    rw [table x x' there there']
    exact h.holds x there
  | deed before deed free =>
    obtain rfl := before.unique h.shows
    obtain ⟨set, turns, after⟩ := before.doing deed
    obtain ⟨sound, agrees⟩ := turns.agrees free h.vigilant.sound h.vigilant.set
    have alert := turns.alert free h.vigilant.sound h.vigilant.set h.vigilant.alert
    exact ⟨_, ⟨h.manages.named, h.manages.held⟩, h.holds, after, ⟨sound, agrees⟩, alert⟩

theorem Meanwhile.watching (passes : Meanwhile io w w') (h : Watching io m s out w) :
    ∃ s', Watching io m s' out w' := by
  induction passes with
  | refl => exact ⟨s, h⟩
  | tail _ pass ih =>
    obtain ⟨s', h'⟩ := ih
    exact pass.watching h'

theorem request_watching (h : Watching io m s out w) (q : Request) (allowed : q.Allowed io w) :
    ∃ m' s', Watching io m' s' out (w.perform (q.act io)).2 := by
  have leads := (request_served h.manages h.holds q allowed).leads
  obtain ⟨s', steps, shows⟩ := request_shows h.manages h.holds h.shows q allowed
  exact ⟨_, s', leads.manages, leads.table, shows, Sight.Steps.vigilant steps h.vigilant⟩

theorem Waited.appends {id : Nat} (waited : Waited id w found w') : Appends w w' .none := by
  obtain ⟨clock, kernel, rfl⟩ := waited.harvested.world
  exact .of_same rfl rfl rfl

/-- What a wait leaves to be seen. -/
theorem Waited.shows (waited : Waited x.epoll w found w')
    (there : w.reactors.get? io.reactor = some x) (shows : w.Shows io.reactor s) :
    found = s.set.found s.descriptors ∧ ∃ waker, w'.Shows io.reactor
      { s with set := { (s.set.harvest s.descriptors).1 with waker := waker } } := by
  obtain ⟨y, same, mask, set, own⟩ := shows.reactor
  obtain rfl := Option.some.inj (there.symm.trans same)
  have harvested := waited.harvested
  obtain ⟨eq, waker, later⟩ := harvested.set _ set
  rw [shows.descriptors] at eq later
  obtain ⟨clock, kernel, rfl⟩ := harvested.world
  exact ⟨eq, waker, harvested.descriptors.trans shows.descriptors, x, there, mask, later, own⟩

/-- After a wait the numbers that it reported have to be told anew. -/
theorem Waited.watching (waited : Waited x.epoll w found w')
    (there : w.reactors.get? io.reactor = some x) (h : Watching io m s [] w) :
    ∃ s', Watching io m s' (found.map (·.1)) w' := by
  obtain ⟨rfl, waker, shows⟩ := waited.shows there h.shows
  have appends := waited.appends
  refine ⟨_, appends.manages h.manages, fun x' there' => ?_, shows, ?_⟩
  · obtain ⟨x, there, table, -⟩ := appends.reactor _ x' there'
    rw [table]
    exact h.holds x there
  · have alert := h.vigilant.alert.harvest h.vigilant.set
    exact ⟨⟨h.vigilant.sound, h.vigilant.set.congr rfl⟩, ⟨alert.once, alert.queued⟩⟩

/-- A wait reports different numbers, and of each something that is armed. -/
theorem Waited.armed (waited : Waited x.epoll w found w')
    (there : w.reactors.get? io.reactor = some x) (h : Watching io m s [] w) :
    (found.map (·.1)).Nodup ∧
      ∀ fd e, (fd, e) ∈ found → (e.inter (m.armed fd)).isEmpty = false := by
  obtain ⟨rfl, -⟩ := waited.shows there h.shows
  refine ⟨Epoll.found_nodup h.vigilant.set h.vigilant.alert.once, fun fd e mem => ?_⟩
  rw [← h.mask]
  exact (Epoll.found_armed h.vigilant.set mem).2

/-- Due timers are taken out, and nothing else happens. -/
theorem expire_ok {id : Nat} (expired : (expire id).on w = (.ok callbacks, w')) :
    Steady w w' ∧ Appends w w' .none := by
  rw [expire, Act.on_bind_get] at expired
  obtain ⟨due, v, taken, rest⟩ := Act.of_bind_ok expired
  have first : Steady w v ∧ Appends w v .none := by
    obtain ⟨-, rfl⟩ := Prod.mk.inj taken
    exact ⟨.of_same rfl rfl, .of_same rfl rfl rfl⟩
  cases due with
  | overflow lost =>
    obtain ⟨_, u, -, raised⟩ := Act.of_bind_ok rest
    cases raised
  | due handed =>
    obtain ⟨u, logged, quiet⟩ : ∃ u, (if !handed.isEmpty then
        log .trace s!"{handed.length} timer(s) expired" else pure () : Act Unit).on v =
          (.ok (), u) ∧ Quiet v u := by
      split
      · exact log_quiet ..
      · exact ⟨v, rfl, .refl v⟩
    dsimp only at rest
    rw [Act.on_when logged, Act.on_pure] at rest
    obtain ⟨-, rfl⟩ := Prod.mk.inj rest
    exact ⟨first.1.trans (.quiet quiet), first.2.trans_none quiet.appends⟩

/-- The callbacks of timers are queued before what a wait found is fired. -/
theorem idlePolled_on (there : w.reactors.get? io.reactor = some x)
    (expired : (expire x.timers).on w = (.ok callbacks, v)) (found : List (Int × Event)) :
    ∃ u added, Steady w u ∧ Appends w u added ∧
      (idlePolled io.scheduler io.reactor found).on w =
        (dispatch io.reactor found >>= fun _ =>
          push (.idleReactor io.scheduler io.reactor) >>= fun _ => yieldTo .hold).on u := by
  obtain ⟨steady, appends⟩ := expire_ok expired
  obtain ⟨u, added, queued, steady', appends'⟩ : ∃ u added,
      (if !callbacks.isEmpty then do
        log .trace s!"scheduling {callbacks.length} timer callback(s)"
        enqueue io.scheduler (callbacks.map fun b => ⟨.callback (.timer b), none⟩)
      else pure () : Act Unit).on v = (.ok (), u) ∧ Steady v u ∧ Appends v u added := by
    split
    · obtain ⟨v', logged, quiet⟩ :=
        log_quiet .trace s!"scheduling {callbacks.length} timer callback(s)" v
      obtain ⟨u, queued, appends'⟩ :=
        enqueue_on io.scheduler (callbacks.map fun b => ⟨.callback (.timer b), none⟩) v'
      have steady' := enqueue_steadily io.scheduler
        (callbacks.map fun b => ⟨.callback (.timer b), none⟩) v'
      rw [queued] at steady'
      exact ⟨u, _, (Act.on_bind_ok logged).trans queued, (Steady.quiet quiet).trans steady',
        quiet.appends.trans appends'⟩
    · exact ⟨v, .none, rfl, .refl v, .refl v⟩
  refine ⟨u, _, steady.trans steady', appends.trans appends', ?_⟩
  have own : ((w.reactors.get? io.reactor).getD default).timers = x.timers := by rw [there]; rfl
  rw [idlePolled, Act.on_bind_get, own, Act.on_bind_ok expired]
  dsimp only
  have run := Act.on_when (f := fun _ => dispatch io.reactor found >>= fun _ =>
    push (.idleReactor io.scheduler io.reactor) >>= fun _ => yieldTo .hold) queued
  rwa [bind_assoc] at run

/-- Giving control back touches fibers and threads only. -/
theorem yieldTo_beside (st : FiberState) (w : World) :
    Steady w ((yieldTo st).on w).2 ∧ Appends w ((yieldTo st).on w).2 .none := by
  rw [yieldTo_on]
  cases w.fibers.yield w.thread.current st with
  | error v =>
    obtain ⟨w', violated, quiet⟩ := followOr_error v w
    rw [violated]
    exact ⟨.quiet quiet, quiet.appends⟩
  | ok t =>
    rw [followOr, follow_on]
    exact ⟨.of_same rfl rfl, .of_same rfl rfl rfl⟩

/-- Effects that leave tables and sets alone. -/
theorem Watching.steady (h : Watching io m s out w) (steady : Steady w w') {added : Added}
    (appends : Appends w w' added) : ∃ s', Watching io m s' out w' := by
  have manages := appends.manages h.manages
  obtain ⟨set, alike, shows⟩ := h.shows.steady steady manages.held
  refine ⟨_, manages, fun x' there' => ?_, shows, Sight.Step.vigilant (.alike alike) h.vigilant⟩
  obtain ⟨x, there, table, -⟩ := steady.reactor _ x' there'
  rw [table]
  exact h.holds x there

/-- A round of the idle fiber, from its wait, which reports `found`, to where it gives control back.
No call of the poller fails, and the due timers can be taken out. -/
inductive Round (io : Manager) (w : World) (found : List (Int × Event)) : World → Prop where
  | round {x y : ReactorRecord} {w₁ w₂ v : World} {callbacks : List TimerBody}
      (there : w.reactors.get? io.reactor = some x) (waited : Waited x.epoll w found w₁)
      (passes : Meanwhile io w₁ w₂) (still : w₂.reactors.get? io.reactor = some y)
      (calm : w₂.kernel.faults.get? .epollCtl = none)
      (expired : (expire y.timers).on w₂ = (.ok callbacks, v)) :
      Round io w found ((idlePolled io.scheduler io.reactor found).on w₂).2

/-- A handler's task stands in the queue of its scheduler, if this scheduler is alive. -/
def Handler.Queued (h : Handler) (w : World) : Prop :=
  ∀ q, w.schedulers.get? h.scheduler = some q → ⟨h.task, none⟩ ∈ q.shared.queue

theorem queued_of_fired {added : Added} {hs : List Handler} {h : Handler}
    (queues : ∀ s x', w'.schedulers.get? s = some x' → ∃ x, w.schedulers.get? s = some x ∧
      x'.shared.queue = x.shared.queue ++ Added.fired hs s) (mem : h ∈ hs)
    (later : Appends w' v added) : h.Queued v := by
  intro q there
  obtain ⟨q', there', queue'⟩ := later.scheduler _ q there
  obtain ⟨_, -, queue⟩ := queues _ q' there'
  have own : ⟨h.task, none⟩ ∈ Added.fired hs h.scheduler :=
    List.mem_map.mpr ⟨h, List.mem_filter.mpr ⟨mem, by simp⟩, rfl⟩
  rw [queue', queue]
  simp [own]

/-- A round keeps the set alert, and fires everything that it handles. -/
theorem Round.watching (round : Round io w found w') (h : Watching io m s [] w) :
    ∃ s', Watching io (Registry.handled m found).1 s' [] w' ∧
      ∀ h ∈ (Registry.handled m found).2, h.Queued w' := by
  cases round with
  | @round x y w₁ w₂ v callbacks there waited passes still calm expired =>
    obtain ⟨distinct, armed⟩ := waited.armed there h
    obtain ⟨s₁, h₁⟩ := waited.watching there h
    obtain ⟨s₂, h₂⟩ := passes.watching h₁
    obtain ⟨u, added, steady, appends, run⟩ := idlePolled_on still expired found
    obtain ⟨s₃, h₃⟩ := h₂.steady steady appends
    obtain ⟨u', s₄, dispatched, leads, shows, vigilant⟩ :=
      report_fires h₃.manages h₃.holds h₃.shows (steady.calm _ calm) found h₃.vigilant distinct
        armed
    let f : Frame := .idleReactor io.scheduler io.reactor
    obtain ⟨steady', appends'⟩ := yieldTo_beside .hold ((push f).on u').2
    have pushed : Steady u' ((push f).on u').2 := .of_same rfl rfl
    have later : Appends u' ((push f).on u').2 .none := .of_same rfl rfl rfl
    have h₄ : Watching io _ s₄ [] u' := ⟨leads.manages, leads.table, shows, vigilant⟩
    obtain ⟨s₅, h₅⟩ := h₄.steady (pushed.trans steady') (later.trans_none appends')
    rw [run, Act.on_bind_ok dispatched]
    exact ⟨s₅, h₅, fun h mem => queued_of_fired leads.queues mem (later.trans_none appends')⟩

/-- The worlds that requests to a reactor and rounds of its idle fiber reach. -/
inductive Watches (io : Manager) (start : World) : World → Prop where
  | start : Watches io start start
  | pass {w w' : World} (run : Watches io start w) (pass : Pass io w w') : Watches io start w'
  | request {w : World} (run : Watches io start w) (q : Request) (allowed : q.Allowed io w) :
      Watches io start (w.perform (q.act io)).2
  | round {w w' : World} {found : List (Int × Event)} (run : Watches io start w)
      (round : Round io w found w') : Watches io start w'

theorem Watches.watching (run : Watches io start w) (h : Watching io m s [] start) :
    ∃ m' s', Watching io m' s' [] w := by
  induction run with
  | start => exact ⟨m, s, h⟩
  | pass _ pass ih =>
    obtain ⟨m', s', h'⟩ := ih
    exact ⟨m', pass.watching h'⟩
  | request _ q allowed ih =>
    obtain ⟨m', s', h'⟩ := ih
    exact request_watching h' q allowed
  | round _ round ih =>
    obtain ⟨m', s', h'⟩ := ih
    obtain ⟨s'', later, -⟩ := round.watching h'
    exact ⟨_, s'', later⟩

/-- An event of a number is armed, and the file that the number names, `i`, is ready for it. -/
def World.Due (w : World) (x : ReactorRecord) (i : Nat) (fd : Int) (ev : Event) : Prop :=
  ev.isSingle = true ∧ (x.table.mask fd).contains ev = true ∧
    ∃ f, w.kernel.descriptors.file? fd = some (i, f) ∧
      (w.kernel.descriptors.readiness f).event.contains ev = true

/-- What is due has a registration, whose file is ready for its mask. -/
theorem Watching.due (h : Watching io m s out w) (there : w.reactors.get? io.reactor = some x)
    {i : Nat} {fd : Int} {ev : Event} (due : w.Due x i fd ev) :
    ∃ f, ⟨i, fd, s.mask fd⟩ ∈ s.set.registered ∧ s.descriptors.files.get? i = some f ∧
      (s.descriptors.readiness f).readyFor (s.mask fd) = true ∧
      ((s.descriptors.readiness f).masked (s.mask fd)).event.contains ev = true := by
  obtain ⟨single, armed, f, named, has⟩ := due
  obtain ⟨y, same, mask, -⟩ := h.shows.reactor
  obtain rfl := Option.some.inj (there.symm.trans same)
  rw [mask] at armed
  rw [h.shows.descriptors] at named has
  obtain ⟨ready, reports⟩ := Kernel.Readiness.reports single armed has
  have some : (s.mask fd).isEmpty = false := Reactor.FdTable.isEmpty_of_contains armed
  obtain ⟨j, g, target, -, one⟩ := h.vigilant.set.armed fd some
  obtain ⟨rfl, rfl⟩ := Prod.mk.inj (Option.some.inj (named.symm.trans target))
  have mem : (⟨i, fd, s.mask fd⟩ : Kernel.Registration) ∈ s.set.of fd := by simp [one]
  exact ⟨f, (List.mem_filter.mp mem).1, (Kernel.Descriptors.file?_eq_some.mp named).2, ready,
    reports⟩

/-- A wait reports what is due, or takes a full batch from the front of the queue before it. -/
theorem Watching.wait (h : Watching io m s [] w) (there : w.reactors.get? io.reactor = some x)
    (waited : Waited x.epoll w found w₁) : ∃ e₁ taken,
      w₁.kernel.epolls.get? x.epoll = some e₁ ∧ s.set.ready = taken ++ e₁.ready ∧
      (∀ i fd ev, w.Due x i fd ev →
        (∃ event, (fd, event) ∈ found ∧ event.contains ev = true) ∨
          .entry i fd ∈ e₁.ready ∧ s.set.maxEvents ≤ taken.length) := by
  obtain ⟨rfl, waker, later⟩ := waited.shows there h.shows
  obtain ⟨taken, split, enough⟩ := Epoll.harvest_split s.set s.descriptors
  have set₁ : w₁.kernel.epolls.get? x.epoll =
      some { (s.set.harvest s.descriptors).1 with waker := waker } := by
    obtain ⟨y, there₁, -, set₁, -⟩ := later.reactor
    obtain ⟨z, there', -, same⟩ := waited.appends.reactor _ y there₁
    obtain rfl := Option.some.inj (there.symm.trans there')
    rwa [same] at set₁
  refine ⟨_, taken, set₁, split, fun i fd ev due => ?_⟩
  obtain ⟨f, mem, known, ready, reports⟩ := h.due there due
  have queued := (h.vigilant.alert.queued _ mem f known ready).resolve_right (by simp)
  rcases Epoll.found_or_kept h.vigilant.set mem known ready queued with reported | ⟨kept, full⟩
  · exact .inl ⟨_, reported, reports⟩
  · exact .inr ⟨kept, full ▸ enough⟩

/-- Every record of a round fires a handler. -/
theorem Watching.fires (h : Watching io m s [] w) (there : w.reactors.get? io.reactor = some x)
    (round : Round io w found w') {fd : Int} {event : Event} (mem : (fd, event) ∈ found) :
    ∃ ev h, event.contains ev = true ∧ (x.table.mask fd).contains ev = true ∧
      (x.table.slot fd).handler ev = some h ∧ h.Queued w' ∧
      ∀ x', w'.reactors.get? io.reactor = some x' → (x'.table.mask fd).contains ev = false := by
  obtain ⟨s', h', queued⟩ := round.watching h
  obtain ⟨distinct, armed⟩ : (found.map (·.1)).Nodup ∧
      ∀ fd e, (fd, e) ∈ found → (e.inter (m.armed fd)).isEmpty = false := by
    cases round with
    | round there waited => exact waited.armed there h
  have holds := h.holds x there
  obtain ⟨ev, handler, member, stored, fired, gone⟩ :=
    Registry.handled_fires m found distinct armed mem
  have single := Event.isSingle_of_mem_members member
  obtain ⟨reported, held⟩ := Event.contains_of_mem_inter member
  have mask : x.table.mask fd = m.armed fd := congrArg Reactor.Slot.armed (holds.slot fd)
  refine ⟨ev, handler, reported, mask ▸ held, ?_, queued _ fired, fun x' there' => ?_⟩
  · rw [holds.slot, Registry.slot_handler m fd single, stored]
  · have mask' : x'.table.mask fd = (Registry.handled m found).1.armed fd :=
      congrArg Reactor.Slot.armed ((h'.holds x' there').slot fd)
    rw [mask', Registry.armed_contains _ fd single, Table.contains_eq_isSome, gone]
    rfl

/-- A reactor with an empty table and an empty set of its own. -/
theorem watching_fresh (manages : Manages io start)
    (fresh : ∀ x, start.reactors.get? io.reactor = some x →
      ∃ n, Reactor.FdTable.fresh n = .ok x.table)
    (shows : start.Shows io.reactor s) (sound : s.descriptors.Sound)
    (unwatched : s.set.registered = []) (once : s.set.ready.Nodup) :
    Watching io .empty s [] start := by
  refine ⟨manages, fun x there => ?_, shows, agrees_fresh fresh shows sound unwatched, once,
    fun r mem => ?_⟩
  · obtain ⟨n, made⟩ := fresh x there
    exact Reactor.FdTable.holds_fresh made
  · rw [unwatched] at mem
    cases mem

/-- A reactor that starts with an empty table and an empty set of its own: whatever happened,
everything armed that is ready has its place in the ready queue of the set. A wait takes members
from the front of the queue; what is due it reports, or it took a full batch that stood before it.
It reports nothing but what has to do with what is armed, and when the round is over, a handler of
each record is queued and not armed any more. -/
theorem no_readiness_lost (manages : Manages io start)
    (fresh : ∀ x, start.reactors.get? io.reactor = some x →
      ∃ n, Reactor.FdTable.fresh n = .ok x.table)
    (shows : start.Shows io.reactor s) (sound : s.descriptors.Sound)
    (unwatched : s.set.registered = []) (once : s.set.ready.Nodup) (run : Watches io start w) :
    ∃ x e, w.reactors.get? io.reactor = some x ∧ w.kernel.epolls.get? x.epoll = some e ∧
      (∀ i fd ev, w.Due x i fd ev → .entry i fd ∈ e.ready) ∧
      (∀ found w₁, Waited x.epoll w found w₁ →
        (∃ e₁ taken, w₁.kernel.epolls.get? x.epoll = some e₁ ∧ e.ready = taken ++ e₁.ready ∧
          ∀ i fd ev, w.Due x i fd ev →
            (∃ event, (fd, event) ∈ found ∧ event.contains ev = true) ∨
              .entry i fd ∈ e₁.ready ∧ e.maxEvents ≤ taken.length) ∧
        ∀ fd event, (fd, event) ∈ found → (event.inter (x.table.mask fd)).isEmpty = false) ∧
      ∀ found w', Round io w found w' → ∀ fd event, (fd, event) ∈ found →
        ∃ ev h, event.contains ev = true ∧ (x.table.mask fd).contains ev = true ∧
          (x.table.slot fd).handler ev = some h ∧ h.Queued w' ∧
          ∀ x', w'.reactors.get? io.reactor = some x' → (x'.table.mask fd).contains ev = false := by
  obtain ⟨m, s', h⟩ :=
    run.watching (watching_fresh manages fresh shows sound unwatched once)
  obtain ⟨x, there, mask, set, -⟩ := h.shows.reactor
  refine ⟨x, s'.set, there, set, fun i fd ev due => ?_, fun found w₁ waited => ⟨?_, ?_⟩, ?_⟩
  · obtain ⟨f, mem, known, ready, -⟩ := h.due there due
    exact (h.vigilant.alert.queued _ mem f known ready).resolve_right (by simp)
  · exact h.wait there waited
  · rw [mask, h.mask]
    exact (waited.armed there h).2
  · intro found w' round fd event mem
    exact h.fires there round mem

/-- A pipe whose end that is read is armed, and into which a byte was written. -/
def writtenWorld : World :=
  let w := (watchingWorld.perform
    ((Request.add 3 .readable (.callback (.script 0 "reader"))).act watcher)).2
  { w with kernel := w.kernel.doing (.write 4 [1]) }

theorem writtenWorld_watches : Watches watcher watchingWorld writtenWorld := by
  have added : Watches watcher watchingWorld _ :=
    .request .start (.add 3 .readable (.callback (.script 0 "reader"))) (watchingWorld_allows _)
  obtain ⟨m, s, watching⟩ := added.watching (watching_fresh watchingWorld_manages
    watchingWorld_fresh watchingWorld_shows watchingSight_sound rfl List.nodup_nil)
  exact added.pass (.deed watching.shows (.write 4 [1]) fun _ none => by cases none)

/-- The end is in the ready queue, a round reports it, and its handler is queued. -/
theorem written_pipe_fires_its_reader :
    ∃ w' x i e h, writtenWorld.reactors.get? watcher.reactor = some x ∧
      writtenWorld.Due x i 3 .readable ∧ writtenWorld.kernel.epolls.get? x.epoll = some e ∧
      .entry i 3 ∈ e.ready ∧ Round watcher writtenWorld [(3, .readable)] w' ∧
      (x.table.slot 3).handler .readable = some h ∧ h.Queued w' := by
  obtain ⟨x, e, there, set, queued, -, fires⟩ :=
    no_readiness_lost watchingWorld_manages watchingWorld_fresh watchingWorld_shows
      watchingSight_sound rfl List.nodup_nil writtenWorld_watches
  let waited := ((tryWait (.epoll 1 0 none)).on writtenWorld).2
  have wait : Waited 1 writtenWorld [(3, .readable)] waited := .later 0 none rfl
  have expired : (expire 3).on waited = (.ok [], ((expire 3).on waited).2) := rfl
  have round : Round watcher writtenWorld [(3, .readable)] _ :=
    .round rfl wait .refl rfl rfl expired
  have named : writtenWorld.kernel.descriptors.file? 3 = some (2, .pipeReader 1) := rfl
  have due : writtenWorld.Due x 2 3 .readable := by
    obtain rfl := Option.some.inj there
    exact ⟨rfl, rfl, _, named, rfl⟩
  obtain ⟨ev, h, reported, -, stored, fired, -⟩ := fires _ _ round 3 .readable List.mem_cons_self
  obtain rfl : ev = .readable := by
    have single : Event.readable.contains ev = true := reported
    obtain ⟨_ | _, _ | _⟩ := ev <;> first | rfl | cases single
  exact ⟨_, x, 2, e, h, there, due, set, queued 2 3 _ due, round, stored, fired⟩

end Fibers.Script
