import Fibers.Proofs.Sleep.Hosting
import Fibers.Proofs.Sleep.Waiting

/-!
What the run loop does while tasks sleep and none has anything to do. The idle fiber waits no longer
than until the first alarm, and no longer than it may; nothing but time comes of a wait, so that it
is made again until alarms are due. These are queued, less than a millisecond late.
-/

namespace Fibers.Script

namespace Station

variable {p : Station} {k : Bench} {d : Dorm} {c u v : Scene} {w : World} {now t : Instant}
  {back : List Frame} {f : Frame} {rest : List Frame} {s : Signal} {x : Datum} {extra : Nat}
  {entry : Option Body} {timeout : Duration} {unrest : Nat} {first : Nap} {alarms : List Nap}
  {res : Except OsError (List (Int × Event))} {found : List (Int × Event)}

/-- The idle fiber runs, and holds some handles. -/
structure AtIdle (p : Station) (k : Bench) (entry : Option Body) (extra : Nat) (d : Dorm)
    (c : Scene) : Prop where
  valid : k.Valid
  hosts : Hosts p d (3 + extra) (1 + extra) 0 c
  floor : Floor c.toView k.idle [p.root, k.caller] ((k.idling p entry extra).known ++ d.cells p)

/-- The frames of the idle fiber and its signal do not matter. -/
theorem AtIdle.told (h : p.AtIdle k entry extra d c) (fs : List Frame) (s : Signal) :
    p.AtIdle k entry extra d { c with frames := fs, signal := s } :=
  ⟨h.valid, h.hosts.steady ⟨rfl, rfl, rfl, rfl, rfl, rfl, rfl⟩, h.floor.congr rfl rfl rfl⟩

/-- A turn that finds nothing to take, and an idle fiber that has not ended, does not call the
system. -/
theorem turn_gentle (shows : p.Depicts c w) (queue : c.shared.queue = [])
    (young : ¬(c.fibers.state k.idle).isTerminal = true) :
    Gentle True w ((turn (k.loop p)).on w).2 := by
  obtain ⟨y, found, is⟩ := shows.scheduler
  have record : (schedulerRecord p.scheduler).on w = (.ok y, w) := by
    rw [schedulerRecord_on p.scheduler w, found]
    rfl
  have nothing : y.shared.take (fun id => w.fibers.state id == .exec) 0 = ⟨y.shared, none, false⟩ :=
    take_nothing (is.shared ▸ queue)
  let v : World :=
    { w with
      schedulers := w.schedulers.modify p.scheduler fun r => { r with shared := y.shared } }
  have taken : (takeNext p.scheduler 0).on w = (.ok none, v) := by
    rw [takeNext, Act.on_bind_get, Act.on_bind_ok record, nothing]
    rfl
  have idles : (turn (k.loop p)).on w = (turnIdle (k.loop p)).on v := Act.on_bind_ok taken
  have fibers : v.fibers = c.fibers := shows.fibers
  have young : ¬(v.fibers.state (k.loop p).idleFiber).isTerminal = true := by
    rw [fibers]
    exact young
  rw [idles, turnIdle, Act.on_bind_get, if_neg young]
  have first : Gentle True w v := .of_same rfl rfl rfl
  exact first.trans (Act.Gently.bind (updateShared_gently _ _) (fun _ =>
    .bind (push_gently _) fun _ => resume_gently _) v)

/-- Neither does the idle fiber when it begins. -/
theorem startFiber_gentle {id : FiberId} (shows : p.Depicts c w)
    (entry : (c.fibers.takeEntry id).2 = some (.idle p.scheduler)) :
    Gentle True w ((startFiber id).on w).2 := by
  have pair : w.fibers.takeEntry id = ((c.fibers.takeEntry id).1, some (.idle p.scheduler)) := by
    rw [shows.fibers, ← entry]
  let v : World := { w with fibers := (c.fibers.takeEntry id).1 }
  have taken : Gentle True w v := .of_same rfl rfl rfl
  rw [startFiber, Act.on_bind_get, pair]
  dsimp only
  rw [Act.on_bind_modify]
  exact taken.trans (Act.Gently.bind (push_gently _) (fun _ => startIdle_gently _) v)

/-- The idle fiber comes to look for work. -/
theorem AtTurn.idles (turn : p.AtTurn k d c) (queue : d.queue = [])
    (room : p.settings.maxEvents * 8 < rowLimit) (seen : p.Sees c now w) :
    ∃ u, p.Calmly k.back now w u ∧ p.AtIdle k none 1 d u ∧
      u.frames = .idleReactor p.scheduler p.reactor :: p.resting k.idle ∧
      ∃ x, u.signal = .done x := by
  have empty : c.shared.queue = [] := by
    rw [turn.hosts.queue, queue]
    rfl
  have young : ¬(c.fibers.state k.idle).isTerminal = true := by
    obtain ⟨st, e, fs, cell, resumable, -⟩ := k.idles p
    have mem : ⟨k.idle, st, e, 1, some fs⟩ ∈ p.rootCell none :: (k.cells p ++ d.cells p) := by
      rw [← cell]
      exact List.mem_cons_of_mem _ (List.mem_append_left _
        (List.mem_cons_of_mem _ List.mem_cons_self))
    rw [(turn.floor.holds _ mem).state]
    cases st <;> first | exact Bool.false_ne_true | cases resumable
  obtain ⟨e, u, does, idling, steady, floor⟩ := takesNothing_does empty turn.floor
  obtain ⟨x, signal⟩ := turn.signal
  have looks : p.Calmly k.back now w { u with signal := .done .null } :=
    seen.calmly (busy_inside turn.floor) turn.hosts.wait turn.frames
      (fun t => by rw [turn.frames]; rfl) (by rw [signal]; rfl) does
      (turn_gentle (seen.popped p.under).depicts empty young)
  have entered : Hosts p d (3 + k.begun.toNat) (1 + k.begun.toNat) 0
      { c with shared := c.shared.enterIdle } := { turn.hosts with }
  have idle : p.AtIdle k e k.begun.toNat d { u with signal := .done .null } :=
    ⟨turn.valid, entered.steady { steady with }, floor.congr rfl rfl rfl⟩
  have wait : u.wait = none := steady.wait.trans turn.hosts.wait
  generalize told : u.frames = fs at idling
  generalize k.begun.toNat = extra at idling idle
  cases idling with
  | looks => exact ⟨_, looks, idle, told, _, rfl⟩
  | begins =>
    have floor := idle.floor
    obtain ⟨entry, floor'⟩ := floor.begun
    let u' : Scene := { u with frames := [], signal := .done .null }
    let begun : Scene :=
      { u' with fibers := (u.fibers.takeEntry k.idle).1, frames := [.fiberBody k.idle] }
    let v : Scene :=
      { begun with
        handles := u.handles + 1
        held := u.held + 1
        frames := .idleReactor p.scheduler p.reactor :: p.resting k.idle }
    have does : p.Does u' (startFiber k.idle) (.done .null) v :=
      startFiber_does (c := u') entry (startIdle_does (c := begun) room)
    have handles := idle.hosts.handles
    have held := idle.hosts.held
    refine ⟨{ v with signal := .done .null }, looks.trans fun w' seen' => ?_, ?_, rfl, _, rfl⟩
    · exact seen'.calmly (busy_inside idle.floor) wait told (fun t => by rw [told]; rfl) rfl does
        (startFiber_gentle (seen'.popped []).depicts entry)
    · refine ⟨turn.valid, { idle.hosts with handles := ?_, held := ?_ }, floor'.congr rfl rfl rfl⟩
      · exact Nat.le_trans (Nat.le_of_eq (by omega)) (Nat.succ_le_succ handles)
      · exact Nat.le_trans (Nat.le_of_eq (by omega)) (Nat.succ_le_succ held)

/-- The frames of the idle fiber under a wait. -/
def polling (p : Station) (idle : FiberId) : List Frame :=
  .idlePolled p.scheduler p.reactor :: p.resting idle

/-- A round that ends in a wait. -/
theorem Sees.polls (seen : p.Sees c now w) (awake : c.wait = none) (frames : c.frames = f :: rest)
    (busy : p.Busy back c) (quiet : ∀ t, Script.sleepEvents c.frames c.current t = [])
    {v : World} (seen' : p.Sees u now v) (kernel : v.kernel = w.kernel)
    (goes : (proceedWith f c.signal).on (w.popped rest) = (poll p.epoll (some timeout)).on v) :
    ∃ res w', Diary back w [] w' ∧
      p.Polled { u with signal := .polled res } now timeout (w.kernel.unrest p.epoll) res w' := by
  obtain ⟨res, v', did, polled⟩ := poll_on seen' timeout
  rw [kernel] at polled
  have one : ∀ {w'}, w.round = some w' → Diary back w [] w' := fun round => by
    have one := Diary.one (busy w seen.depicts) round
    rw [seen.sleepEvents, quiet] at one
    exact one
  rcases polled with ⟨seen', less⟩ | ⟨seen', same⟩
  · obtain ⟨w', round, seen', kernel⟩ := seen.turns awake frames (goes.trans did) seen'
    exact ⟨res, w', one round, .inl ⟨seen', kernel ▸ less⟩⟩
  · obtain ⟨w', round, seen', -⟩ := seen.turns awake frames (goes.trans did) seen'
    exact ⟨res, w', one round, .inr ⟨seen', same⟩⟩

/-- The wait of the idle fiber is over: at once, with less to end further ones, or after its
time. -/
def Waited (p : Station) (k : Bench) (d : Dorm) (now : Instant) (timeout : Duration) (unrest : Nat)
    (w : World) : Prop :=
  ∃ found u t w', Diary k.back w [] w' ∧ p.Sees u t w' ∧ p.AtIdle k none 1 d u ∧
    u.frames = p.polling k.idle ∧ u.signal = .polled (.ok found) ∧
    (t = now ∧ w'.kernel.unrest p.epoll < unrest ∨ t = now + pause timeout)

/-- A wait that was interrupted is made again, until one is over. -/
theorem waits_reach (idle : p.AtIdle k none 1 d c)
    (frames : c.frames = .idlePoll p.reactor timeout :: p.polling k.idle)
    (signal : c.signal = .polled res) (polled : p.Polled c now timeout unrest res w) :
    p.Waited k d now timeout unrest w := by
  induction unrest using Nat.strongRecOn generalizing c w res with
  | ind unrest ih =>
    have busy : p.Busy k.back c := busy_inside idle.floor
    have quiet : ∀ t, sleepEvents c.frames c.current t = [] := fun t => by rw [frames]; rfl
    let past : Scene := { c with frames := p.polling k.idle }
    have ends : ∀ found t act, p.Sees c t w → idlePoll p.reactor timeout res = act →
        p.Does past act (.polled (.ok found)) past → act.Gently True →
        (t = now ∧ w.kernel.unrest p.epoll < unrest ∨ t = now + pause timeout) →
          p.Waited k d now timeout unrest w := by
      intro found t act seen goes does gently outcome
      obtain ⟨w', diary, seen', kernel⟩ := seen.calmly busy idle.hosts.wait frames quiet
        (by rw [signal]; exact goes) does (gently _)
      exact ⟨found, _, t, w', diary, seen', idle.told _ _, rfl, rfl, kernel ▸ outcome⟩
    rcases polled with ⟨seen, less⟩ | ⟨seen, rfl⟩
    · cases res with
      | ok found => exact ends found now _ seen rfl (.pure _) (.pure _) (.inl ⟨rfl, less⟩)
      | error e =>
        by_cases interrupted : e = .interrupted
        · subst interrupted
          obtain ⟨v, pushed, seen', kernel⟩ := (seen.popped (p.polling k.idle)).pushes
            (.idlePoll p.reactor timeout)
          have goes : (proceedWith (.idlePoll p.reactor timeout) c.signal).on
              (w.popped (p.polling k.idle)) = (poll p.epoll (some timeout)).on v := by
            obtain ⟨x, there, is⟩ := seen'.depicts.reactor
            rw [signal]
            refine (Act.on_bind_ok pushed).trans ?_
            rw [Act.on_bind_get, there, Option.getD_some, is.epoll]
          obtain ⟨res, w', diary, polled⟩ := seen.polls idle.hosts.wait frames busy quiet seen'
            kernel goes
          obtain ⟨found, u, t, w'', diary', seen'', idle', frames', signal', outcome⟩ :=
            ih _ less (idle.told _ _) rfl rfl polled
          refine ⟨found, u, t, w'', diary.trans diary', seen'', idle', frames', signal', ?_⟩
          exact outcome.imp_left fun early => ⟨early.1, Nat.lt_trans early.2 less⟩
        · have logs : idlePoll p.reactor timeout (.error e) = (do
              logError s!"epoll_wait failed: {e.render}"
              return .polled (.ok [])) := if_neg interrupted
          exact ends [] now _ seen logs ((Does.log _ _).bind (.pure _))
            (.bind (log_gently _ _) fun _ => .pure _) (.inl ⟨rfl, less⟩)
    · exact ends [] _ _ seen rfl (.pure _) (.pure _) (.inr rfl)

/-- The idle fiber does not end while a sleep has an alarm, and waits. -/
theorem looks_reach (idle : p.AtIdle k none 1 d c) {first : Nap} {alarms : List Nap}
    (asleep : d.alarms = first :: alarms)
    (frames : c.frames = .idleReactor p.scheduler p.reactor :: p.resting k.idle)
    (signal : c.signal = .done x) (seen : p.Sees c now w) :
    p.Waited k d now (min (first.sleep.due - now) p.settings.maxWait) (w.kernel.unrest p.epoll)
      w := by
  let timeout := min (first.sleep.due - now) p.settings.maxWait
  let m : Timers TimerBody := { c.timers with tickled := false }
  have next : c.timers.next now = (m, some (first.sleep.due - now)) := by
    rw [idle.hosts.rings.next, asleep]
    rfl
  have armed : c.timers.hasTimer = true := by
    have some : c.timers.slots.isEmpty = false := by
      refine Bool.eq_false_iff.mpr fun none => ?_
      have none := idle.hosts.rings.isEmpty_iff.mp none
      rw [asleep] at none
      cases none
    rw [Timers.hasTimer, some]
    rfl
  let w₀ := w.popped (p.resting k.idle)
  have seen₀ : p.Sees { c with frames := p.resting k.idle } now w₀ := seen.popped (p.resting k.idle)
  have stops : w₀.isStopping p.scheduler = false := by
    rw [seen₀.depicts.isStopping]
    dsimp only
    rw [armed]
    simp
  obtain ⟨y, there, is⟩ := seen₀.depicts.reactor
  have does := onTimers_does (p := p) (c := { c with frames := p.resting k.idle }) (·.next now)
  dsimp only at does
  rw [next] at does
  obtain ⟨v₁, did₁, shows₁, gentle⟩ := does.gently (@onTimers_gently True _ _ _) seen₀.depicts
  have seen₁ := seen₀.after gentle shows₁
  obtain ⟨v₂, did₂, seen₂, kernel₂⟩ := seen₁.pushes (.idlePolled p.scheduler p.reactor)
  obtain ⟨v₃, did₃, seen₃, kernel₃⟩ := seen₂.pushes (.idlePoll p.reactor timeout)
  have goes : (proceedWith (.idleReactor p.scheduler p.reactor) c.signal).on w₀ =
      (poll p.epoll (some timeout)).on v₃ := by
    have clock : w₀.clock = now := seen₀.clock
    have looks : proceedWith (.idleReactor p.scheduler p.reactor) c.signal =
        idleReactor p.scheduler p.reactor := by
      rw [signal]
      rfl
    have asked : (isStopping p.scheduler).on w₀ = (.ok false, w₀) := by
      rw [← stops]
      rfl
    rw [looks, idleReactor, Act.on_bind_ok asked, if_neg Bool.false_ne_true, Act.on_bind_get, there,
      Option.getD_some, clock]
    dsimp only
    rw [is.timers, is.epoll, is.config, Act.on_bind_ok did₁]
    dsimp only
    exact (Act.on_bind_ok did₂).trans (Act.on_bind_ok did₃)
  have kernel : v₃.kernel = w.kernel := kernel₃.trans (kernel₂.trans (gentle.kernel trivial))
  obtain ⟨res, w', diary, polled⟩ := seen.polls idle.hosts.wait frames (busy_inside idle.floor)
    (fun t => by rw [frames]; rfl) seen₃ kernel goes
  have idle' : p.AtIdle k none 1 d
      { c with
        timers := m
        frames := .idlePoll p.reactor timeout :: p.polling k.idle
        signal := .polled res } :=
    ⟨idle.valid, { idle.hosts with rings := idle.hosts.rings.tickled false },
      idle.floor.congr rfl rfl rfl⟩
  obtain ⟨found, u, t, w'', diary', rest⟩ := waits_reach idle' rfl rfl polled
  exact ⟨found, u, t, w'', diary.trans diary', rest⟩

/-- Reports of descriptors for which nobody waits are ignored. -/
theorem Sees.ignores (seen : p.Sees c now w) (holds : c.table.Holds .empty)
    (found : List (Int × Event)) :
    ∃ v, (dispatch p.reactor found).on w = (.ok (), v) ∧ p.Sees c now v ∧ v.kernel = w.kernel := by
  induction found generalizing w with
  | nil => exact ⟨w, rfl, seen, rfl⟩
  | cons report found ih =>
    obtain ⟨fd, e⟩ := report
    obtain ⟨y, there, is⟩ := seen.depicts.reactor
    have ignored : y.table.dispatch (Reactor.epollPoller y.epoll) w.kernel fd e =
        (w.kernel, y.table, .ignored) := by
      rw [is.table]
      refine holds.dispatch_ignored ?_
      obtain ⟨_ | _, _ | _⟩ := e <;> rfl
    have same : Gentle True w (w.withTable p.reactor w.kernel y.table) := .of_same rfl rfl rfl
    have after : p.Sees c now (w.withTable p.reactor w.kernel y.table) :=
      seen.after same { seen.depicts with
        reactor := ⟨_, withTable_get? there w.kernel y.table, { is with }⟩ }
    obtain ⟨v, did, seen', kernel⟩ := ih after
    exact ⟨v, (dispatch_on there ignored rfl found).trans did, seen', kernel⟩

/-- The alarms that are due are taken out. -/
theorem Sees.expires (seen : p.Sees c now w) {count : Nat}
    (rings : Rings p.scheduler c.timers d.alarms count) :
    ∃ m v, (expire p.timers).on w = (.ok ((d.alarms.filter fun x => decide (x.sleep.due ≤ now)).map
        (Nap.callback p.scheduler)), v) ∧ p.Sees { c with timers := m } now v ∧
      v.kernel = w.kernel ∧ Rings p.scheduler m (d.ringing now).alarms count := by
  obtain ⟨m, expired, rings'⟩ := rings.expire now
  have does := onTimers_does (p := p) (c := c) (·.expire now)
  rw [expired] at does
  obtain ⟨v, did, shows, gentle⟩ := does.gently (@onTimers_gently True _ _ _) seen.depicts
  have seen' := seen.after gentle shows
  let callbacks := (d.alarms.filter fun x => decide (x.sleep.due ≤ now)).map
    (Nap.callback p.scheduler)
  have answers : p.Does { c with timers := m } (do
      if !callbacks.isEmpty then log .trace s!"{callbacks.length} timer(s) expired"
      return callbacks) callbacks { c with timers := m } := .when_bind (.log _ _) (.pure _)
  obtain ⟨v', did', shows', gentle'⟩ := answers.gently
    (.when (@log_gently True _ _) (.pure _)) seen'.depicts
  refine ⟨m, v', ?_, seen'.after gentle' shows',
    (gentle'.kernel trivial).trans (gentle.kernel trivial), rings'⟩
  rw [expire, Act.on_bind_get, seen.clock, Act.on_bind_ok did]
  exact did'

/-- What is due is queued. -/
theorem Sees.queues (seen : p.Sees c now w) (callbacks : List TimerBody) {α : Type} (rest : Act α) :
    ∃ v, (do
        if !callbacks.isEmpty then
          log .trace s!"scheduling {callbacks.length} timer callback(s)"
          enqueue p.scheduler (callbacks.map fun b => ⟨.callback (.timer b), none⟩)
        rest : Act α).on w = rest.on v ∧
      p.Sees { c with shared := { c.shared with
        queue := c.shared.queue ++ callbacks.map fun b => ⟨.callback (.timer b), none⟩ } } now v ∧
      (callbacks = [] → v.kernel = w.kernel) := by
  cases callbacks with
  | nil =>
    refine ⟨w, rfl, ?_, fun _ => rfl⟩
    rw [List.map_nil, List.append_nil]
    exact seen
  | cons b callbacks =>
    let entries : List (QueueEntry Body) :=
      (b :: callbacks).map fun b => ⟨.callback (.timer b), none⟩
    obtain ⟨v, did, shows, gentle⟩ := (Does.log (p := p) (c := c) .trace
      s!"scheduling {(b :: callbacks).length} timer callback(s)").gently
      (@log_gently False _ _) seen.depicts
    have seen' := seen.after gentle shows
    obtain ⟨v', did', shows', gentle'⟩ := (enqueue_does (p := p) (c := c) entries).gently
      (enqueue_gently _ _) seen'.depicts
    refine ⟨v', ?_, seen'.after gentle' shows', fun none => by cases none⟩
    exact (Act.on_bind_ok did).trans (Act.on_bind_ok did')

/-- What the idle fiber does after its wait. It queues the alarms that are due, and gives control
back. -/
theorem polled_on (idle : p.AtIdle k none 1 d c) (queue : d.queue = [])
    (frames : c.frames = p.resting k.idle) (seen : p.Sees c t w) (found : List (Int × Event)) :
    ∃ u v, (idlePolled p.scheduler p.reactor found).on w = (.ok (.left .hold), v) ∧
      p.Sees u t v ∧ Hosts p (d.ringing t) 4 2 0 u ∧
      Floor u.toView p.root [k.caller] (p.rootCell none ::
        ({ k with begun := true }.cells p ++ (d.ringing t).cells p)) ∧
      u.frames = .loopIdle (k.loop p) :: p.under ∧
      ((∀ x ∈ d.alarms, t < x.sleep.due) → v.kernel = w.kernel) := by
  let callbacks : List TimerBody := (d.alarms.filter fun x => decide (x.sleep.due ≤ t)).map
    (Nap.callback p.scheduler)
  obtain ⟨y, there, is⟩ := seen.depicts.reactor
  obtain ⟨m, v₁, did₁, seen₁, kernel₁, rings⟩ := seen.expires idle.hosts.rings
  obtain ⟨v₂, did₂, seen₂, kernel₂⟩ := seen₁.queues callbacks (do
    dispatch p.reactor found
    push (.idleReactor p.scheduler p.reactor)
    yieldTo .hold)
  obtain ⟨v₃, did₃, seen₃, kernel₃⟩ := seen₂.ignores idle.hosts.table found
  obtain ⟨v₄, did₄, seen₄, kernel₄⟩ := seen₃.pushes (.idleReactor p.scheduler p.reactor)
  -- The idle fiber gives control back.
  let c₄ : Scene :=
    { c with
      timers := m
      frames := .idleReactor p.scheduler p.reactor :: c.frames
      shared := { c.shared with
        queue := c.shared.queue ++ callbacks.map fun b => ⟨.callback (.timer b), none⟩ } }
  have floor : Floor c₄.toView k.idle [p.root, k.caller] ((k.idling p none 1).known ++ d.cells p) :=
    idle.floor.congr rfl rfl rfl
  obtain ⟨tr, -, ok, left, floor, resumed⟩ := floor.handed .hold (by decide)
  have does := yieldTo_does (p := p) (c := c₄) ok
  rw [left] at does
  obtain ⟨v₅, did₅, shows₅, gentle⟩ := does.gently (@yieldTo_gently True _) seen₄.depicts
  refine ⟨c₄.followed tr, v₅, ?_, seen₄.after gentle shows₅, ?_, ?_, resumed, fun early => ?_⟩
  · rw [idlePolled, Act.on_bind_get, there, Option.getD_some, is.timers, Act.on_bind_ok did₁]
    exact did₂.trans ((Act.on_bind_ok did₃).trans ((Act.on_bind_ok did₄).trans did₅))
  · exact (idle.hosts.ringing queue rings).steady ⟨rfl, rfl, rfl, rfl, rfl, rfl, rfl⟩
  · have waits : c₄.frames = .idleReactor p.scheduler p.reactor :: p.resting k.idle :=
      congrArg _ frames
    rw [show c₄.toView.frames = _ from waits] at floor
    refine (floor.perm (.cons _ ((List.Perm.swap ..).trans ?_))).congr rfl rfl rfl
    exact .cons _ (.cons _ ((d.ringing_cells p queue t).append_left k.pooled))
  · have none : callbacks = [] := by
      refine List.map_eq_nil_iff.mpr (List.filter_eq_nil_iff.mpr fun x mem due => ?_)
      exact absurd (of_decide_eq_true due) (Nat.not_le.mpr (early x mem))
    calc
      v₅.kernel = v₃.kernel := (gentle.kernel trivial).trans kernel₄
      _ = v₁.kernel := kernel₃.trans (kernel₂ none)
      _ = w.kernel := kernel₁

/-- The alarms that are due are queued, and the run loop looks for work again. -/
theorem fires_reach (idle : p.AtIdle k none 1 d c) (queue : d.queue = [])
    (frames : c.frames = p.polling k.idle) (signal : c.signal = .polled (.ok found))
    (seen : p.Sees c t w) :
    ∃ u w', Diary k.back w [] w' ∧ p.Sees u t w' ∧
      p.AtTurn { k with begun := true } (d.ringing t) u ∧
      ((∀ x ∈ d.alarms, t < x.sleep.due) → w'.kernel = w.kernel) := by
  obtain ⟨u, v, did, seen', hosts, floor, resumed, still⟩ :=
    polled_on (idle.told (p.resting k.idle) c.signal) queue rfl (seen.popped (p.resting k.idle))
      found
  obtain ⟨w₁, round, seen₁, kernel₁⟩ := seen.turns idle.hosts.wait frames
    (by rw [signal]; exact did) seen'
  have one : Diary k.back w w.sleepEvents w₁ := .one (busy_inside idle.floor w seen.depicts) round
  rw [seen.sleepEvents, frames] at one
  let u' : Scene := { u with signal := .left .hold }
  have does : p.Does { u' with frames := p.under } (turnedIdle (k.loop p)) (.done .null)
      { u' with shared := u.shared.leaveIdle, frames := .loop (k.loop p) :: p.under } :=
    (updateShared_does _).bind ((push_does _).bind (.pure _))
  have looks : p.Calmly k.back t w₁ _ := seen₁.calmly (busy_inside (floor.congr rfl rfl rfl))
    hosts.wait resumed (fun t => by rw [show u'.frames = _ from resumed]; rfl) rfl does
    (turnedIdle_gently _ _)
  obtain ⟨w₂, diary, seen₂, kernel₂⟩ := looks
  refine ⟨_, w₂, one.trans diary, seen₂,
    ⟨idle.valid, { hosts with }, floor.congr rfl rfl rfl, rfl, _, rfl⟩, fun early => ?_⟩
  exact kernel₂.trans (kernel₁.trans (still early))

/-- Alarms go on waiting if none is due. -/
theorem AtTurn.later (turn : p.AtTurn k (d.ringing t) c) (queue : d.queue = [])
    (early : ∀ x ∈ d.alarms, t < x.sleep.due) : p.AtTurn k d c := by
  have none : (d.alarms.filter fun x => decide (x.sleep.due ≤ t)) = [] :=
    List.filter_eq_nil_iff.mpr fun x mem due =>
      absurd (of_decide_eq_true due) (Nat.not_le.mpr (early x mem))
  have all : (d.alarms.filter fun x => decide (t < x.sleep.due)) = d.alarms :=
    List.filter_eq_self.mpr fun x mem => decide_eq_true (early x mem)
  have same : d.ringing t = { d with now := t } := by
    rw [Dorm.ringing, none, all, List.map_nil, ← queue]
  rw [same] at turn
  exact ⟨turn.valid, { turn.hosts with }, turn.floor, turn.frames, turn.signal⟩

/-- The idle fiber waits until alarms are due, and these are queued. -/
theorem rings_reach {k : Bench} {c : Scene} {w : World} {now : Instant}
    (turn : p.AtTurn k d c) (queue : d.queue = []) (asleep : d.alarms = first :: alarms)
    (sorted : ∀ x ∈ d.alarms, first.sleep.due ≤ x.sleep.due)
    (inTime : ∀ x ∈ d.alarms, now < x.sleep.due + Duration.ofMillis 1)
    (room : p.settings.maxEvents * 8 < rowLimit) (waits : 0 < p.settings.maxWait)
    (seen : p.Sees c now w) :
    ∃ t u w', Diary k.back w [] w' ∧ p.Sees u t w' ∧
      p.AtTurn { k with begun := true } (d.ringing t) u ∧ now ≤ t ∧
      (∀ x ∈ d.alarms, t < x.sleep.due + Duration.ofMillis 1) ∧
      ∃ x ∈ d.alarms, x.sleep.due ≤ t := by
  obtain ⟨u, ⟨w₁, diary₁, seen₁, kernel₁⟩, idle, frames, x, signal⟩ := turn.idles queue room seen
  obtain ⟨found, v, t, w₂, diary₂, seen₂, idle₂, frames₂, signal₂, outcome⟩ :=
    looks_reach idle asleep frames signal seen₁
  generalize bound : min (first.sleep.due - now) p.settings.maxWait = timeout at outcome
  obtain ⟨c', w₃, diary₃, seen₃, turn', still⟩ :=
    fires_reach idle₂ queue frames₂ signal₂ seen₂
  have diary : Diary k.back w [] w₃ := diary₁.trans (diary₂.trans diary₃)
  have firstMem : first ∈ d.alarms := asleep ▸ List.mem_cons_self
  have soon := inTime first firstMem
  have later : now ≤ t := by
    rcases outcome with ⟨same, -⟩ | same
    · exact Nat.le_of_eq same.symm
    · exact same ▸ Nat.le_add_right ..
  have inTime' : ∀ x ∈ d.alarms, t < x.sleep.due + Duration.ofMillis 1 := by
    rcases outcome with ⟨rfl, -⟩ | rfl
    · exact inTime
    · intro x mem
      refine Nat.lt_of_lt_of_le ?_ (Nat.add_le_add_right (sorted x mem) _)
      exact bound ▸ pause_inTime soon p.settings.maxWait
  by_cases due : ∃ x ∈ d.alarms, x.sleep.due ≤ t
  · exact ⟨t, c', w₃, diary, seen₃, turn', later, inTime', due⟩
  · have early : ∀ x ∈ d.alarms, t < x.sleep.due := fun x mem =>
      Nat.lt_of_not_le fun reached => due ⟨x, mem, reached⟩
    -- Either time has passed, or less is left that may end a wait.
    have ahead := early first firstMem
    have shrinks : Prod.Lex (· < ·) (· < ·) (first.sleep.due - t, w₃.kernel.unrest p.epoll)
        (first.sleep.due - now, w.kernel.unrest p.epoll) := by
      rcases outcome with ⟨rfl, less⟩ | rfl
      · rw [still early, ← kernel₁]
        exact .right _ less
      · have future : 0 < first.sleep.due - now :=
          Nat.sub_pos_of_lt (Nat.lt_of_le_of_lt later ahead)
        have some : 0 < pause timeout := pause_pos (bound ▸ Nat.lt_min.mpr ⟨future, waits⟩)
        exact .left _ _ (Nat.sub_lt_sub_left (Nat.lt_of_sub_pos future)
          (Nat.lt_add_of_pos_right some))
    obtain ⟨t', u', w', diary', seen', turn'', later', rest⟩ :=
      rings_reach (turn'.later queue early) queue asleep sorted inTime' room waits seen₃
    exact ⟨t', u', w', diary.trans diary', seen', turn'', Nat.le_trans later later', rest⟩
termination_by (first.sleep.due - now, w.kernel.unrest p.epoll)
decreasing_by exact shrinks

end Station

end Fibers.Script
