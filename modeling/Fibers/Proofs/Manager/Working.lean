import Fibers.Proofs.Manager.Accounting

/-!
What the fiber of a task does once the run loop has resumed it. It begins its body, works through
its scripts and is told what its actions answered; then it gives way, goes to sleep or ends, and the
run loop accounts for its entry.
-/

namespace Fibers.Script

/-- Frames, signals and reports do not matter. -/
theorem Live.retold {p : Station} {s : Seat} {b : Books} {c : Scene} (h : Live p s b c)
    (fs : List Frame) (x : Signal) (reports : List (String × Datum)) :
    Live p s b { c with frames := fs, signal := x, reports := reports } :=
  { h with
    stock := ⟨h.store.refit ⟨rfl, rfl, rfl, rfl, rfl, rfl⟩ ⟨rfl, rfl, rfl, rfl⟩ (Nat.le_refl _)
      (Nat.le_refl _), h.stock.ground.congr rfl rfl rfl, h.stock.seniors⟩ }

/-- The run loop is as before after an action that leaves the running fiber as it is. -/
theorem Live.stays {p : Station} {s : Seat} {b b' : Books} {c u : Scene} (h : Live p s b c)
    (calm : c.Calm u) (stock : Stock p b' u) (stays : b.Stays b') : Live p s b' u where
  stock := stock
  known := stays.known.trans h.known
  current := calm.current.trans h.current
  chain := stays.chain.trans h.chain
  hand := stays.hand.trans h.hand
  risen := stays.risen.trans h.risen
  due := stays.due.trans h.due
  lent := stays.lent.trans h.lent
  active := calm.active.trans h.active
  stopping := calm.stopping.trans h.stopping
  autoStop := calm.autoStop.trans h.autoStop

namespace Station

variable {p : Station} {b : Books} {c u : Scene} {w w' : World} {k : Bench} {id : FiberId}
  {d : Datum} {front f : Frame} {rest fs : List Frame} {left : FiberState} {cells : List Cell}
  {lent : Option FiberId} {s : Signal} {verb label : String} {t : Tail}
  {post : Except Stop Signal → Scene → Prop}

/-- Whatever an action answered is reported. -/
theorem report_told (verb label : String) (s : Signal) :
    ∃ d, proceedWith (.report verb label) s = (do report verb label d; return .done .null) := by
  cases s <;> exact ⟨_, rfl⟩

theorem clockAnswer_ends (shows : p.Depicts c w) :
    p.Ends w (proceedWith .answerClock (.done d)) fun r u =>
      u = c ∧ ∃ d', r = .ok (.done d') :=
  ⟨c, shows, rfl, _, rfl⟩

/-- The first of some steps is started. -/
theorem startSteps_ends (shows : p.Depicts c w) {a : Action} {more : List Step}
    (h : ∀ w', p.Depicts
      { c with frames := .report verb label :: (stepFrames label more ++ c.frames) } w' →
        p.Ends w' (perform label a) post) :
    p.Ends w (startSteps label (.perform verb a :: more)) post := by
  cases more with
  | nil => exact (push_does _).ends_bind shows fun w' shows' => h w' shows'
  | cons step more =>
    exact (push_does _).ends_bind shows fun v told =>
      (push_does _).ends_bind told fun w' shows' => h w' shows'

/-- Two handles more. -/
theorem retainAll_pair {x y : Handle} {v : Scene} (first : p.Does c (retain x) () u)
    (second : p.Does u (retain y) () v) : p.Does c (retainAll [x, y]) () v :=
  first.bind (second.bind (.pure _))

/-- The scene in which a fiber goes to sleep, with the timer that will wake it. -/
def sleeping (p : Station) (c : Scene) (id : FiberId) (m : Timers TimerBody) : Scene :=
  { c with
    frames := .release [.scheduler p.scheduler, .reactor p.reactor] :: c.frames
    handles := c.handles + 2
    held := c.held + 1
    fibers := c.fibers.retain id
    timers := m }

section Sleeping

variable (shows : p.Depicts c w) (current : c.current = some id)
include shows current

/-- What comes before the timer of a sleep is armed takes no time. -/
theorem sleepFiber_before (d : Duration) :
    ∃ v, p.Depicts (p.sleeping c id c.timers) v ∧ v.clock = w.clock ∧
      (sleepFiber p.scheduler p.reactor d).on w =
        (addTimer p.timers d (.wake p.scheduler id) false >>= fun _ => yieldTo .hold).on v := by
  obtain ⟨w₁, did₁, shows₁, gentle₁⟩ :=
    (currentOrMain_does current).gently (@currentOrMain_gently True) shows
  obtain ⟨w₂, did₂, shows₂, gentle₂⟩ :=
    (retainAll_pair retain_scheduler_does retain_reactor_does).gently
      (@retainAll_gently True _) shows₁
  obtain ⟨w₃, did₃, shows₃, gentle₃⟩ := (push_does _).gently (@push_gently True _) shows₂
  obtain ⟨w₄, did₄, shows₄, gentle₄⟩ :=
    (retainAll_pair retain_scheduler_does (retain_fiber_does id)).gently
      (@retainAll_gently True _) shows₃
  have gentle := ((gentle₁.trans gentle₂).trans gentle₃).trans gentle₄
  have shows₄ : p.Depicts (p.sleeping c id c.timers) w₄ := shows₄
  obtain ⟨x, found, is⟩ := shows₄.reactor
  refine ⟨w₄, shows₄, gentle.clock, ?_⟩
  rw [sleepFiber, Act.on_bind_ok did₁, Act.on_bind_ok did₂, Act.on_bind_ok did₃]
  refine (Act.on_bind_ok did₄).trans ?_
  rw [Act.on_bind_get, found, Option.getD_some, is.timers]

/-- A fiber goes to sleep, if the deadline can be told. -/
theorem sleepFiber_armed {t : FiberTable.Transfer Body}
    (yields : (c.fibers.retain id).yield c.current .hold = .ok t) {d : Duration}
    {m : Timers TimerBody} {number : Nat} {wake : Bool}
    (armed : c.timers.add w.clock d (.wake p.scheduler id) false = (m, some (number, wake))) :
    ∃ w', (sleepFiber p.scheduler p.reactor d).on w = (.ok (toldSignal t.told), w') ∧
      p.Depicts ((p.sleeping c id m).followed t) w' := by
  obtain ⟨v, shows, clock, same⟩ := sleepFiber_before shows current d
  rw [← clock] at armed
  obtain ⟨v', did, shows'⟩ := addTimer_armed shows armed
  obtain ⟨w', left, shows''⟩ := yieldTo_does (c := p.sleeping c id m) yields v' shows'
  refine ⟨w', ?_, shows''⟩
  rw [same, Act.on_bind_ok did, left]

/-- A panic, if the deadline cannot be told. -/
theorem sleepFiber_overflows (begun : ∀ r, c.fibers.get? id = some r → r.entry = none)
    {d : Duration} {m : Timers TimerBody}
    (late : c.timers.add w.clock d (.wake p.scheduler id) false = (m, none)) :
    p.Ends w (sleepFiber p.scheduler p.reactor d) fun r _ =>
      r = .error (.panic .instantOverflow) := by
  obtain ⟨v, shows, clock, same⟩ := sleepFiber_before shows current d
  rw [← clock] at late
  have overflows : p.Ends v (addTimer p.timers d (.wake p.scheduler id) false) fun r _ =>
      r = .error (.panic .instantOverflow) := by
    have does := onTimers_does (p := p) (c := p.sleeping c id c.timers)
      (·.add v.clock d (.wake p.scheduler id) false)
    have none : (p.sleeping c id c.timers).timers.add v.clock d (.wake p.scheduler id) false =
      (m, none) := late
    rw [none] at does
    refine Ends.get (does.ends_bind shows fun w₅ shows₅ => ?_)
    have light : ∀ r, (c.fibers.retain id).get? id = some r →
        r.entry = Option.none ∨ 1 < r.handles := by
      intro r known
      rw [FiberTable.retain, FiberTable.get?_modify, if_pos rfl] at known
      obtain ⟨q, there, rfl⟩ := Option.map_eq_some_iff.mp known
      exact .inl (begun q there)
    refine Does.ends_bind (Frees.does (.cons (releaseOne_scheduler_does ?_)
      (.cons (releaseOne_fiber_does light) (.nil _)))) shows₅ fun w₆ shows₆ => .raise shows₆ rfl
    exact Nat.le_add_left 2 c.handles
  have fails : p.Ends v (addTimer p.timers d (.wake p.scheduler id) false >>= fun _ =>
      yieldTo .hold) fun r _ => r = .error (.panic .instantOverflow) :=
    overflows.bind (fun _ _ _ _ ok => by cases ok) fun e u same =>
      congrArg _ (Except.error.inj same)
  obtain ⟨u, told, bad⟩ := fails
  refine ⟨u, ?_, ?_⟩ <;> rw [same]
  · exact told
  · exact bad

/-- A call for a sleep ends in one of these ways. -/
theorem sleepFiber_ends (kept : c.timers.Kept)
    (begun : ∀ r, c.fibers.get? id = some r → r.entry = none)
    {t : FiberTable.Transfer Body} (yields : (c.fibers.retain id).yield c.current .hold = .ok t)
    (d : Duration) :
    p.Ends w (sleepFiber p.scheduler p.reactor d) fun r u =>
      r = .error (.panic .instantOverflow) ∨
      ∃ m slot, r = .ok (toldSignal t.told) ∧ u = (p.sleeping c id m).followed t ∧ m.Kept ∧
        m.lastId = c.timers.lastId + 1 ∧ slot.callback = .wake p.scheduler id ∧
        slot.recurring = false ∧ m.slots = c.timers.slots.put (c.timers.lastId + 1) slot ∧
        m.owed = Timers.owing slot ++ c.timers.owed := by
  obtain ⟨m, res, added, kept', last, ⟨rfl, _⟩ | ⟨wake, slot, rfl, body, recurs, slots, owed⟩⟩ :
      ∃ m res, c.timers.add w.clock d (.wake p.scheduler id) false = (m, res) ∧ _ :=
    Timers.add_owed kept d (.wake p.scheduler id) false
  · exact (sleepFiber_overflows shows current begun added).mono fun _ _ => .inl
  · obtain ⟨w', did, told⟩ := sleepFiber_armed shows current yields added
    refine ⟨_, ?_, .inr ⟨m, slot, ?_, rfl, kept', last, body, recurs, slots, owed⟩⟩ <;> rw [did]
    exact told

end Sleeping

/-- A fiber that runs under a reactor sleeps alone. -/
theorem sleep_eq {g : FiberId} {chain : List FiberId} (floor : Floor c.toView id (g :: chain) cells)
    {fs : List Frame} (told : p.Depicts { c with frames := fs } w) (d : Duration) :
    (sleep d).on w = (sleepFiber p.scheduler p.reactor d).on w := by
  obtain ⟨x, found, is⟩ := told.scheduler
  have reactor : w.reactorOf p.scheduler = some p.reactor := by
    rw [World.reactorOf, found]
    dsimp only
    rw [is.hooks]
  have current : w.thread.current = some id := told.thread.current.trans floor.current
  have inside : w.inFiber = true := by
    have order : w.fibers.Orderly w.thread.current (g :: chain) := by
      have order : c.fibers.Orderly (some id) (g :: chain) := floor.order
      rw [told.fibers, current]
      exact order
    exact order.inFiber_iff.mpr ⟨id, g, chain, current, rfl⟩
  rw [sleep, Act.on_bind_get, told.currentScheduler]
  dsimp only
  rw [reactor, inside]
  rfl

/-- Names stay known when a timer is armed under no name. -/
theorem Knows.arms {m m' : Timers TimerBody} {n : Names} {slot : TimerSlot TimerBody}
    (h : p.Knows m n) (last : m'.lastId = m.lastId + 1)
    (slots : m'.slots = m.slots.put (m.lastId + 1) slot) : p.Knows m' n := by
  refine { h with timers := fun name set id named => ?_ }
  obtain ⟨mine, old, quiet⟩ := h.timers name set id named
  refine ⟨mine, last ▸ Nat.le_succ_of_le old, fun s found => ?_⟩
  have other : id ≠ m.lastId + 1 := fun e => Nat.not_succ_le_self _ (e ▸ old)
  rw [slots, Table.get?_put_other _ _ other] at found
  exact quiet s found

/-- A fiber joins those that wait, with a timer that will wake it. -/
theorem Store.sleeps (h : Store p b c) (c' : Scene) (new : id ∉ b.fibers) {m : Timers TimerBody}
    {slot : TimerSlot TimerBody} (kept : m.Kept) (last : m.lastId = c.timers.lastId + 1)
    (wakes : slot.callback = .wake p.scheduler id) (once : slot.recurring = false)
    (slots : m.slots = c.timers.slots.put (c.timers.lastId + 1) slot)
    (owed : m.owed = Timers.owing slot ++ c.timers.owed) (timers : c'.timers = m)
    (shared : c'.shared = c.shared) (table : c'.table = c.table) (names : c'.names = c.names)
    (handles : c'.handles = c.handles + 2) (held : c'.held = c.held + 1)
    (verb label : String) (t : Tail) :
    Store p
      (b.joined id (.asleep verb label t) 1 (.callback (.timer (.wake p.scheduler id)))) c' := by
  have own : Timers.owing slot = [.wake p.scheduler id] := by
    rw [Timers.owing, once, wakes, if_neg Bool.false_ne_true]
  refine h.joined rfl new rfl (fun _ => rfl) ?_ table ?_ ?_ ?_ ?_ ?_ ?_
  · rw [Scene.tasks, Scene.tasks, timers, shared, owed, own]
    exact .refl _
  · exact timers ▸ kept
  · intro j s found recurs
    rw [timers, slots, Table.get?_put] at found
    split at found
    · obtain rfl := Option.some.inj found
      rw [once] at recurs
      cases recurs
    · exact h.recurring j s found recurs
  · rw [timers, names]
    exact Knows.arms h.names last slots
  · rw [shared]
    exact h.pinned
  · rw [handles]
    exact Nat.le_refl _
  · rw [held]
    exact Nat.le_refl _

/-- The fiber of a task works on. -/
theorem works_on (valid : k.Valid)
    (accounts : front = .loopFiber (k.loop p) id ∨ front = .loopCallback (k.loop p) id)
    (live : Live p (k.tasking p front id none [] [] 0) b c) (wait : c.wait = none)
    (spare : ∀ j, b.spare j = 0) (doing : Doing p id fs s none [] [] none)
    (reports : List (String × Datum)) :
    Phase p k.back b.notes { c with frames := fs, signal := s, reports := reports } :=
  .tasking k rfl valid accounts doing (live.retold fs s reports) wait
    (fun j => (spare j).trans (if_neg nofun).symm) nofun rfl

/-- The fiber of a task has left, and its entry is to be accounted for. -/
theorem leaves (valid : k.Valid)
    (accounts : front = .loopFiber (k.loop p) id ∨ front = .loopCallback (k.loop p) id)
    (leaving : Leaving p id left cells lent) (store : Store p b c)
    (floor : Floor c.toView p.root [k.caller]
      (p.rootCell none :: (cells ++ (k.cells p ++ b.crew p))))
    (frames : c.frames = front :: p.under)
    (signal : c.signal = .left left) (wait : c.wait = none) (hand : b.hand = [])
    (risen : b.risen = []) (due : b.due = 3 + k.begun.toNat) (held : b.lent = 1 + k.begun.toNat)
    (active : c.shared.active = 1) (stopping : c.shared.stopping = true)
    (autoStop : c.shared.autoStop = true)
    (spare : ∀ j, b.spare j = if lent = some j then 1 else 0)
    (waits : ∀ f, lent = some f → f ∈ b.fibers) : Phase p k.back b.notes c := by
  have gone : ∀ x ∈ cells, x.state ≠ .init := by
    cases leaving with
    | ready => exact List.forall_mem_singleton.mpr nofun
    | ended => exact List.forall_mem_singleton.mpr nofun
    | asleep => exact List.forall_mem_nil _
  have live : Live p (k.looping p cells 1) (b.seated (k.looping p cells 1) b.spare) c := by
    refine .of_store store ⟨rfl, rfl, rfl, rfl⟩ ?_ (Bench.looping_seniors valid cells gone) hand
      risen ?_ ?_ active stopping autoStop
    · refine floor.perm ?_
      change List.Perm _ (p.rootCell none :: (cells ++ k.cells p) ++ b.crew p)
      rw [List.cons_append, List.append_assoc]
    · rw [due]
      exact Nat.le_refl _
    · rw [held]
      exact Nat.le_refl _
  exact .accounting k rfl valid accounts leaving live frames signal wait spare waits rfl

/-- The fiber of a task ends, and the run loop goes on. -/
theorem ends_does (floor : Floor c.toView id [p.root, k.caller]
      (⟨id, .exec, none, 1, none⟩ :: p.rootCell (some (front :: p.under)) :: cells)) :
    ∃ u, p.Does { c with frames := [] } (finish id .term) (.left .term) u ∧ c.Steady u ∧
      u.frames = front :: p.under ∧
      Floor u.toView p.root [k.caller]
        (p.rootCell none :: ⟨id, .term, none, 1, some [.fiberEnd]⟩ :: cells) := by
  let v : Scene := { c with frames := [.fiberEnd] }
  have floor : Floor v.toView id [p.root, k.caller]
      (⟨id, .exec, none, 1, none⟩ :: p.rootCell (some (front :: p.under)) :: cells) :=
    floor.congr rfl rfl rfl
  obtain ⟨t, ok, -, told, floor, resumed⟩ := floor.handed .term (by decide)
  have does : p.Does { c with frames := [] } (finish id .term) (toldSignal t.told)
      (v.followed t) := finish_does (c := { c with frames := [] }) ok
  rw [told] at does
  exact ⟨v.followed t, does, ⟨rfl, rfl, rfl, rfl, rfl, rfl, rfl⟩, resumed, floor.congr rfl rfl rfl⟩

section Working

variable (shows : p.Depicts c w) (valid : k.Valid)
  (accounts : front = .loopFiber (k.loop p) id ∨ front = .loopCallback (k.loop p) id)
  (wait : c.wait = none) (round : w.round = some w')
  (live : Live p (k.tasking p front id none [] [] 0) b c) (spare : ∀ j, b.spare j = 0)
include shows valid accounts wait round live spare

/-- A frame of the fiber does what concerns nobody else. -/
theorem frame_goes {act : Act Signal} {reports : List (String × Datum)}
    (frames : c.frames = f :: rest) (quiet : w.notes w'.thread.signal = [])
    (goes : proceedWith f c.signal = act)
    (does : p.Does { c with frames := rest } act s { c with frames := fs, reports := reports })
    (doing : Doing p id fs s none [] [] none) :
    ∃ c', p.Depicts c' w' ∧ Phase p k.back (w.notes w'.thread.signal ++ b.notes) c' :=
  goes_quiet shows wait frames round quiet goes does
    (works_on valid accounts live wait spare doing reports)

theorem reports_goes (frames : c.frames = .report verb label :: t.frames id) :
    ∃ c', p.Depicts c' w' ∧ Phase p k.back (w.notes w'.thread.signal ++ b.notes) c' := by
  obtain ⟨d, goes⟩ := report_told verb label c.signal
  refine frame_goes shows valid accounts wait round live spare frames ?_ goes
    ((report_does verb label d).bind (.pure _)) (.works t _)
  rw [World.notes, shows.thread.frames, frames]

theorem answers_goes
    (frames : c.frames = .answerClock :: .report verb label :: t.frames id)
    (signal : c.signal = .done d) (timely : w'.Timely) :
    ∃ c', p.Depicts c' w' ∧ Phase p k.back (w.notes w'.thread.signal ++ b.notes) c' := by
  refine goes shows wait frames round timely (by rw [signal]) ?_
  refine (clockAnswer_ends (shows.popped _)).mono ?_
  rintro _ _ ⟨rfl, d', rfl⟩
  have quiet : w.notes (ending (.ok (.done d'))) = [] := by
    rw [World.notes, shows.thread.frames, frames]
  rw [quiet]
  exact .inr (works_on valid accounts live wait spare (.reports verb label t _) c.reports)

/-- The fiber ends. -/
theorem ends_goes (frames : c.frames = [.fiberBody id]) (signal : c.signal = .done d) :
    ∃ c', p.Depicts c' w' ∧ Phase p k.back (w.notes w'.thread.signal ++ b.notes) c' := by
  obtain ⟨u, does, steady, resumed, floor⟩ := ends_does live.floor
  refine goes_quiet shows wait frames round ?_ (by rw [signal]; rfl) does ?_
  · rw [World.notes, shows.thread.frames, frames]
  · have light : ∀ j, b.spare j = if (none : Option FiberId) = some j then 1 else 0 := fun j =>
      (spare j).trans (if_neg (Option.some_ne_none j).symm).symm
    have store : Store p b { u with signal := .left .term } :=
      live.store.refit ⟨rfl, rfl, rfl, rfl, rfl, rfl⟩ { steady.alike with }
        (Nat.le_of_eq (congrArg (b.due + ·) steady.handles.symm))
        (Nat.le_of_eq (congrArg (b.lent + ·) steady.held.symm))
    exact leaves valid accounts .ended store (floor.congr rfl rfl rfl) resumed rfl
      (steady.wait.trans wait) live.hand live.risen live.due live.lent
      (steady.shared ▸ live.active) (steady.shared ▸ live.stopping)
      (steady.shared ▸ live.autoStop) light fun f same => absurd same.symm (Option.some_ne_none f)

omit shows round in
/-- An action is taken that leaves the fiber as it is. -/
theorem keeps_on {c₁ : Scene} {notes : List Note} (frames : c₁ = { c with frames := fs })
    (told : fs = .report verb label :: t.frames id) (keeps : p.Keeps b c₁ notes u) (s : Signal) :
    Phase p k.back (notes ++ b.notes) { u with signal := s } := by
  subst frames told
  obtain ⟨calm, b', stock, stays, same⟩ := keeps
  have live' := (live.retold (.report verb label :: t.frames id) c.signal c.reports).stays calm
    stock stays
  have phase := works_on valid accounts live' (calm.wait.trans wait) (stays.spare spare)
    (.reports verb label t s) u.reports
  rw [same, ← show u.frames = .report verb label :: t.frames id from calm.frames] at phase
  exact phase

omit shows round in
/-- The fiber gives way in the course of an action. -/
theorem yields_ends (fs : List Frame) (told : p.Depicts { c with frames := fs } w)
    (told' : fs = .report verb label :: t.frames id) :
    p.Ends w (yieldTo .ready) fun r u =>
      r = .ok (.left .ready) ∧ Phase p k.back b.notes { u with signal := .left .ready } := by
  let v : Scene := { c with frames := fs }
  have floor : Floor v.toView id [p.root, k.caller]
      (⟨id, .exec, none, 1, none⟩ :: p.rootCell (some (front :: p.under)) ::
        (k.cells p ++ b.crew p)) := live.floor.congr rfl rfl rfl
  obtain ⟨tr, -, ok, left, floor, resumed⟩ := floor.handed .ready nofun
  have does := yieldTo_does (p := p) (c := v) ok
  rw [left] at does
  refine does.ends told ⟨rfl, ?_⟩
  have leaving : Leaving p id .ready [⟨id, .ready, none, 1, some fs⟩] none :=
    told' ▸ .ready verb label t
  exact leaves valid accounts leaving (live.store.refit ⟨rfl, rfl, rfl, rfl, rfl, rfl⟩
    ⟨rfl, rfl, rfl, rfl⟩ (Nat.le_refl _) (Nat.le_refl _)) (floor.congr rfl rfl rfl) resumed rfl
    wait live.hand live.risen live.due live.lent live.active live.stopping live.autoStop
    (fun j => (spare j).trans (if_neg nofun).symm) nofun

omit shows round in
/-- The fiber goes to sleep in the course of an action. -/
theorem sleeps_ends (fs : List Frame) (told : p.Depicts { c with frames := fs } w)
    (told' : fs = .answerClock :: .report verb label :: t.frames id) (d : Duration) :
    p.Ends w (sleepFiber p.scheduler p.reactor d) fun r u =>
      r = .error (.panic .instantOverflow) ∨ r = .ok (.left .hold) ∧
        Phase p k.back
          (.owed (.timer (.wake p.scheduler id)) :: .asleep id :: b.notes)
          { u with signal := .left .hold } := by
  let v : Scene := { c with frames := fs }
  have new : id ∉ b.fibers := live.new (x := ⟨id, .exec, none, 1, none⟩) List.mem_cons_self
  have floor : Floor v.toView id [p.root, k.caller]
      (⟨id, .exec, none, 1, none⟩ :: p.rootCell (some (front :: p.under)) ::
        (k.cells p ++ b.crew p)) := live.floor.congr rfl rfl rfl
  have begun : ∀ r, c.fibers.get? id = some r → r.entry = none := by
    obtain ⟨⟨q, found, _, entry, _⟩, _⟩ := floor.holds _ List.mem_cons_self
    intro r known
    obtain rfl := Option.some.inj (known.symm.trans found)
    exact entry
  have retained : Floor (p.sleeping v id c.timers).toView id [p.root, k.caller]
      (⟨id, .exec, none, 2, none⟩ :: p.rootCell (some (front :: p.under)) ::
        (k.cells p ++ b.crew p)) := floor.retain.congr rfl rfl rfl
  obtain ⟨tr, -, ok, left, floor, resumed⟩ := retained.handed .hold nofun
  refine (sleepFiber_ends told live.floor.current live.stock.timers begun ok d).mono fun r u => ?_
  rintro (rfl | ⟨m, slot, rfl, rfl, kept, last, wakes, once, slots, owed⟩)
  · exact .inl rfl
  · refine .inr ⟨by rw [left]; rfl, ?_⟩
    let x : Posture := .asleep verb label t
    let task : Task Body := .callback (.timer (.wake p.scheduler id))
    let b' := b.joined id x 1 task
    let u : Scene := { (p.sleeping v id m).followed tr with signal := .left .hold }
    have store : Store p
        (b.joined id (.asleep verb label t) 1 (.callback (.timer (.wake p.scheduler id)))) u :=
      Store.sleeps live.store u new kept last wakes once slots owed rfl rfl rfl rfl rfl rfl
        verb label t
    have floor : Floor u.toView p.root [k.caller]
        (p.rootCell none :: ([] ++ (k.cells p ++ b'.crew p))) := by
      have crew : b'.crew p = x.cell p id 2 :: b.crew p := Books.joined_crew rfl new
      rw [crew]
      subst told'
      refine (floor.perm (.cons _ ?_)).congr rfl rfl rfl
      exact List.perm_middle.symm
    have mem : id ∈ b'.fibers :=
      Books.mem_fibers.mpr ⟨task, List.mem_cons_self, List.mem_singleton.mpr rfl⟩
    have phase := leaves (b := b') valid accounts .asleep store floor resumed rfl wait live.hand
      live.risen live.due live.lent live.active live.stopping live.autoStop (fun j => ?_)
      (fun f same => Option.some.inj same ▸ mem)
    · exact phase
    · change Function.update b.spare id 1 j = _
      rw [Function.update_apply, spare j]
      simp only [Option.some.injEq, eq_comm]

/-- The fiber comes to an action of a script. -/
theorem acts_goes (one : p.config.threads = 1) {a : Action} {more : List Step}
    (frames : c.frames = .steps (.perform verb a :: more) label :: t.frames id)
    (signal : c.signal = .done d) (allows : w.Allows a) (timely : w'.Timely) :
    ∃ c', p.Depicts c' w' ∧ Phase p k.back (w.notes w'.thread.signal ++ b.notes) c' := by
  let t' := t.after label more
  let fs : List Frame := .report verb label :: t'.frames id
  have noted : ∀ s, w.notes s = w.actionNotes label s a := fun s => by
    rw [World.notes, shows.thread.frames, frames]
  have live' := live.retold fs c.signal c.reports
  have due : 1 ≤ b.due := by
    have due := live.due
    change b.due = 3 + k.begun.toNat + 0 at due
    omega
  have ends : p.Ends (w.popped (t.frames id)) (startSteps label (.perform verb a :: more))
      fun r u => ending r = .raised .instantOverflow ∨
        Phase p k.back (w.actionNotes label (ending r) a ++ b.notes)
          { u with signal := ending r } := by
    refine startSteps_ends (shows.popped (t.frames id)) fun v told => ?_
    have told : p.Depicts { c with frames := fs } v := by
      rw [← t.frames_after label more id] at told
      exact told
    rcases allowed_keeps one live'.stock live.hand due shows told allows with rfl | ⟨d, rfl⟩ | keeps
    · refine (yields_ends valid accounts wait live spare fs told rfl).mono fun r u => ?_
      rintro ⟨rfl, phase⟩
      exact .inr phase
    · refine (push_does .answerClock).ends_bind told fun v' told' => ?_
      obtain ⟨u, shown, good⟩ :=
        sleeps_ends valid accounts wait live spare (.answerClock :: fs) told' rfl d
      refine ⟨u, ?_, ?_⟩ <;> rw [sleep_eq live.floor told']
      · exact shown
      · rcases good with late | ⟨same, phase⟩
        · rw [late]
          exact .inl rfl
        · have notes : w.actionNotes label (.left .hold) (.fiber (.sleep d)) =
              [.owed (.timer (.wake p.scheduler id)), .asleep id] := by
            have current : w.thread.current = some id :=
              shows.thread.current.trans live.floor.current
            simp only [World.actionNotes, shows.currentScheduler, current]
          rw [same]
          exact .inr (notes.symm ▸ phase)
    · exact keeps.mono fun r u good => good.imp_right fun keeps =>
        keeps_on valid accounts wait live spare rfl rfl keeps (ending r)
  refine goes shows wait frames round timely (by rw [signal]; rfl) (ends.mono fun r u good => ?_)
  rw [noted]
  exact good

/-- The fiber works through what it has still to do. -/
theorem works_goes (one : p.config.threads = 1) (lawful : w.Lawful) (timely : w'.Timely)
    (frames : c.frames = t.frames id) (signal : c.signal = .done d) :
    ∃ c', p.Depicts c' w' ∧ Phase p k.back (w.notes w'.thread.signal ++ b.notes) c' := by
  obtain ⟨_ | ⟨⟨_ | ⟨step, more⟩, label⟩, blocks⟩, timer⟩ := t
  · cases timer with
    | false => exact ends_goes shows valid accounts wait round live spare frames signal
    | true =>
      refine frame_goes shows valid accounts wait round live spare frames ?_ (by rw [signal]; rfl)
        (release_nil_does.bind (.pure _)) (.works ⟨[], false⟩ d)
      rw [World.notes, shows.thread.frames, frames]
      rfl
  · refine frame_goes shows valid accounts wait round live spare frames ?_ (by rw [signal]; rfl)
      (.pure _) (.works ⟨blocks, timer⟩ .null)
    rw [World.notes, shows.thread.frames, frames]
    rfl
  · obtain ⟨verb, a, rfl, allows⟩ := lawful step more label _ (shows.thread.frames.trans frames)
    exact acts_goes (t := ⟨blocks, timer⟩) shows valid accounts wait round live spare one frames
      signal allows timely

end Working

/-- The fiber that a waiting task resumes or queues is queued with one handle more. -/
theorem Books.roused_crew {b : Books} {g : FiberId} {s : SchedulerId} {rest : List (Task Body)}
    (tasks : b.tasks.Perm (.callback (.timer (.wake s g)) :: rest)) :
    (Books.crew { b with spare := Function.update b.spare g 1 } p).Perm
      ((b.roused (.timer (.wake s g)) g rest).crew p) :=
  (Books.roused_fibers tasks).map _

/-- A callback of a script or of a timer of a script begins. -/
theorem startPlain_ends {body : Body} (plain : body.Plain) (shows : p.Depicts c w)
    (frames : c.frames = [.fiberBody id]) :
    p.Ends w (startBody body) fun r u =>
      ∃ t d, r = .ok (.done d) ∧ u = { c with frames := Tail.frames t id } := by
  cases plain with
  | script block label =>
    refine (startBlock_does block label).ends shows ⟨⟨[(p.program.block block, label)], false⟩,
      .null, rfl, ?_⟩
    rw [frames]
    rfl
  | timer callback script =>
    have none : callback.handles = [] := handles_of_script script
    refine (push_does _).ends_bind shows fun v told => ?_
    rw [none, frames] at told
    cases callback with
    | wake => cases script
    | script block label =>
      exact (startBlock_does block label).ends told ⟨⟨[(_, label)], true⟩, .null, rfl, rfl⟩
    | guarded object block label =>
      refine Ends.get ?_
      split
      · exact (startBlock_does block label).ends told ⟨⟨[(_, label)], true⟩, .null, rfl, rfl⟩
      · exact .pure told ⟨⟨[], true⟩, .null, rfl, rfl⟩

section Beginning

variable {body : Body} (shows : p.Depicts c w) (valid : k.Valid)
  (accounts : front = .loopFiber (k.loop p) id ∨ front = .loopCallback (k.loop p) id)
  (wait : c.wait = none) (round : w.round = some w') (timely : w'.Timely)
  (signal : c.signal = .done d) (frames : c.frames = [.fiberStart id])
  (live : Live p (k.tasking p front id (some body) [.callback body] [] 0) b c)
  (spare : ∀ j, b.spare j = 0)
include shows valid accounts wait round timely signal frames live spare

omit valid accounts spare in
/-- The body of a fiber is taken out, and begins. -/
theorem begins_from (own : body.isOwn = true)
    (begins : ∀ v, p.Depicts
        { c with fibers := (c.fibers.takeEntry id).1, frames := [.fiberBody id] } v →
      p.Ends v (startBody body) fun r u =>
        Phase p k.back (.begun body :: b.notes) { u with signal := ending r }) :
    ∃ c', p.Depicts c' w' ∧ Phase p k.back (w.notes w'.thread.signal ++ b.notes) c' := by
  obtain ⟨entry, -⟩ := live.floor.begun
  have noted : ∀ s, w.notes s = [.begun body] := by
    intro s
    obtain ⟨⟨r, found, _, entry, _⟩, _⟩ := live.floor.holds _ List.mem_cons_self
    have body' : w.bodyOf id = some body := by
      rw [World.bodyOf, shows.fibers, found]
      exact entry
    rw [World.notes, shows.thread.frames, frames]
    dsimp only
    rw [body', Option.toList_some, List.filter_cons_of_pos own]
    rfl
  have ends : p.Ends (w.popped []) (startFiber id) fun r u =>
      Phase p k.back (.begun body :: b.notes) { u with signal := ending r } := by
    have pair : c.fibers.takeEntry id = ((c.fibers.takeEntry id).1, some body) :=
      Prod.ext rfl entry
    have told := shows.popped []
    refine Ends.get ?_
    rw [told.fibers, pair]
    have taken : p.Does { c with frames := [] }
        (modify fun w => { w with fibers := (c.fibers.takeEntry id).1 }) ()
        { c with frames := [], fibers := (c.fibers.takeEntry id).1 } :=
      .modify fun _ shows => { shows with fibers := rfl }
    refine taken.ends_bind told fun v told => ?_
    exact (push_does _).ends_bind told begins
  refine goes shows wait frames round timely (by rw [signal]; rfl) (ends.mono fun r u good => ?_)
  rw [noted]
  exact .inr good

/-- A body of a script or of a timer of a script begins. -/
theorem plain_begins (plain : body.Plain) :
    ∃ c', p.Depicts c' w' ∧ Phase p k.back (w.notes w'.thread.signal ++ b.notes) c' := by
  have own : body.isOwn = true := by cases plain <;> rfl
  have stock := live.stock
  have tasks : b.tasks.Perm (.callback body :: c.tasks b.registry) := by
    have all := stock.tasks
    rw [live.hand] at all
    exact all.trans List.perm_append_comm
  have left : (c.tasks b.registry).Perm (c.tasks b.registry ++ []) := by rw [List.append_nil]
  have relieved := stock.relieved plain (.inr rfl) tasks rfl left stock.table stock.handlers
    stock.timers stock.recurring stock.names (Nat.le_refl _) rfl
  let b' : Books := { b.relieved (c.tasks b.registry) (.begun body) with hand := [] }
  have floor : Floor c.toView id [p.root, k.caller]
      ((k.tasking p front id (some body) [.callback body] [] 0).known ++ b'.crew p) := by
    have ground : Ground c.toView b.chain (b.known ++ b'.crew p) := relieved.ground
    rw [live.known, live.chain] at ground
    exact ground.floor live.current
  obtain ⟨-, floor⟩ := floor.begun
  let v : Scene := { c with fibers := (c.fibers.takeEntry id).1, frames := [.fiberBody id] }
  let seat := k.tasking p front id none [] [] 0
  have live' : Live p seat (b'.seated seat b'.spare) v :=
    .of_store relieved.toStore ⟨rfl, rfl, rfl, rfl⟩ (floor.congr rfl rfl rfl)
      (Bench.tasking_seniors valid front id none [] [] 0) rfl live.risen (Nat.le_of_eq
        (congrArg (· + c.handles) live.due.symm)) (Nat.le_of_eq
        (congrArg (· + c.held) live.lent.symm)) live.active live.stopping live.autoStop
  refine begins_from shows wait round timely signal frames live own fun x told => ?_
  refine (startPlain_ends plain told rfl).mono ?_
  rintro _ _ ⟨t, d, rfl, rfl⟩
  exact works_on valid accounts live' wait spare (.works t d) c.reports

/-- The callback that ends a sleep queues the sleeping fiber. -/
theorem wake_begins {g : FiberId} (wakes : body = .timer (.wake p.scheduler g)) :
    ∃ c', p.Depicts c' w' ∧ Phase p k.back (w.notes w'.thread.signal ++ b.notes) c' := by
  subst wakes
  have hand : b.hand = [.callback (.timer (.wake p.scheduler g))] := live.hand
  obtain ⟨rest, tasks, store⟩ := live.store.rouses hand
  have mem : g ∈ b.fibers := Books.mem_fibers.mpr
    ⟨_, tasks.mem_iff.mpr List.mem_cons_self, List.mem_singleton.mpr rfl⟩
  let b' := b.roused (.timer (.wake p.scheduler g)) g rest
  let seat := k.tasking p front id none [] [] 1
  obtain ⟨-, floor⟩ := live.floor.begun
  have floor : Floor { c.toView with fibers := (c.fibers.takeEntry id).1 } id [p.root, k.caller]
      (seat.known ++ b.crew p) := floor
  have floor : Floor { c.toView with fibers := (c.fibers.takeEntry id).1.retain g } id
      [p.root, k.caller] (seat.known ++ Books.crew { b with spare := _ } p) :=
    Books.recrew 1 floor mem fun cells floor => by
      have retained := floor.retain
      rw [Posture.cell_handles, Posture.cell_with, Posture.cell_id, spare g] at retained
      exact retained
  have floor := floor.perm ((Books.roused_crew (p := p) tasks).append_left seat.known)
  let v : Scene :=
    { c with
      fibers := (c.fibers.takeEntry id).1.retain g
      frames := [.release [.scheduler p.scheduler, .fiber g], .fiberBody id]
      shared := { c.shared with queue := c.shared.queue ++ [⟨.fiber g, none⟩] } }
  have live' : Live p seat (b'.seated seat b'.spare) { v with signal := .done .null } := by
    refine .of_store store ⟨rfl, rfl, rfl, rfl⟩ (floor.congr rfl rfl rfl)
      (Bench.tasking_seniors valid front id none [] [] 1) rfl live.risen ?_ ?_ live.active
      live.stopping live.autoStop
    · exact Nat.le_of_eq (congrArg (· + 1 + c.handles) live.due.symm)
    · exact Nat.le_of_eq (congrArg (· + c.held) live.lent.symm)
  refine begins_from shows wait round timely signal frames live rfl fun x told => ?_
  have does : p.Does
      { c with fibers := (c.fibers.takeEntry id).1, frames := [.fiberBody id] }
      (startBody (.timer (.wake p.scheduler g))) (.done .null) v :=
    (push_does _).bind ((retain_fiber_does g).bind ((enqueue_does _).bind (.pure _)))
  refine does.ends told ?_
  refine .tasking k rfl valid accounts (.rouses g .null) live' wait (fun j => ?_) ?_ rfl
  · change Function.update b.spare g 1 j = _
    rw [Function.update_apply, spare j]
    simp only [Option.some.injEq, eq_comm]
  · rintro _ ⟨⟩
    have fibers : b.fibers.Perm b'.fibers := Books.roused_fibers tasks
    exact fibers.mem_iff.mp mem

/-- A body begins. -/
theorem begins_goes :
    ∃ c', p.Depicts c' w' ∧ Phase p k.back (w.notes w'.thread.signal ++ b.notes) c' := by
  have takes : p.Takes (.callback body) := by
    refine live.stock.sound.takes _ (live.stock.tasks.mem_iff.mpr (List.mem_append_right _ ?_))
    rw [live.hand]
    exact List.mem_singleton.mpr rfl
  have plain := fun plain : body.Plain =>
    plain_begins shows valid accounts wait round timely signal frames live spare plain
  cases body with
  | script block label => exact plain (.script block label)
  | timer callback =>
    cases callback with
    | script block label => exact plain (.timer _ rfl)
    | guarded object block label => exact plain (.timer _ rfl)
    | wake s g =>
      obtain rfl : s = p.scheduler := takes
      exact wake_begins shows valid accounts wait round timely signal frames live spare rfl
  | root s => exact takes.elim
  | idle s => exact takes.elim

end Beginning

section Waking

variable (shows : p.Depicts c w) (valid : k.Valid)
  (accounts : front = .loopFiber (k.loop p) id ∨ front = .loopCallback (k.loop p) id)
  (wait : c.wait = none) (round : w.round = some w') (signal : c.signal = .done d)
include shows valid accounts wait round signal

/-- The fiber that has slept lets go of the scheduler and the reactor. -/
theorem rises_goes (live : Live p (k.tasking p front id none [] [id] 0) b c)
    (spare : ∀ j, b.spare j = 0)
    (frames : c.frames = .release [.scheduler p.scheduler, .reactor p.reactor] :: .answerClock ::
      .report verb label :: t.frames id) (timely : w'.Timely) :
    ∃ c', p.Depicts c' w' ∧ Phase p k.back (w.notes w'.thread.signal ++ b.notes) c' := by
  let fs : List Frame := .answerClock :: .report verb label :: t.frames id
  have noted : ∀ s, w.notes s = [.awake id] := by
    intro s
    have current : w.thread.current = some id := shows.thread.current.trans live.floor.current
    rw [World.notes, shows.thread.frames, frames, current]
    rfl
  have enough := live.stock.handles
  have enough' := live.stock.held
  have due := live.due
  have lent := live.lent
  change b.due = 3 + k.begun.toNat + 0 at due
  change b.lent = 1 + k.begun.toNat at lent
  have length : b.sleepers.length ≥ 1 := by
    have risen : b.risen = [id] := live.risen
    rw [Books.sleepers, risen]
    exact Nat.succ_le_succ (Nat.zero_le _)
  have does : p.Does { c with frames := fs }
      (proceed (.done d) (.release [.scheduler p.scheduler, .reactor p.reactor])) (.done d)
      { c with frames := fs, handles := c.handles - 1, held := c.held - 1 } :=
    (release_both_does (c := { c with frames := fs }) (show 1 < c.handles by omega)
      (show 1 < c.held by omega)).1.bind (.pure _)
  refine goes shows wait frames round timely (by rw [signal]; rfl)
    (does.ends (shows.popped fs) (.inr ?_))
  rw [noted]
  have store := live.store.woken live.risen
  have live' : Live p (k.tasking p front id none [] [] 0)
      { b with risen := [], notes := .awake id :: b.notes }
      { c with handles := c.handles - 1, held := c.held - 1 } :=
    ⟨⟨store, live.stock.ground.congr rfl rfl rfl, live.stock.seniors⟩, live.known, live.current,
      live.chain, live.hand, rfl, live.due, live.lent, live.active, live.stopping, live.autoStop⟩
  exact works_on valid accounts live' wait spare (.answers verb label t d) c.reports

/-- The callback that ended a sleep lets go of the scheduler and of the fiber that it has queued. -/
theorem rouses_goes {g : FiberId} (live : Live p (k.tasking p front id none [] [] 1) b c)
    (spare : ∀ j, b.spare j = if g = j then 1 else 0) (mem : g ∈ b.fibers)
    (frames : c.frames = [.release [.scheduler p.scheduler, .fiber g], .fiberBody id]) :
    ∃ c', p.Depicts c' w' ∧ Phase p k.back (w.notes w'.thread.signal ++ b.notes) c' := by
  obtain ⟨light, floor⟩ := Books.lightened live.floor mem ((spare g).trans (if_pos rfl))
  have enough := live.stock.handles
  have due := live.due
  change b.due = 3 + k.begun.toNat + 1 at due
  let fs : List Frame := [.fiberBody id]
  let v : Scene := { c with frames := fs, handles := c.handles - 1 }
  have does : p.Does { c with frames := fs }
      (proceed (.done d) (.release [.scheduler p.scheduler, .fiber g])) (.done d) (v.freed g) := by
    refine Does.bind (Frees.does (.cons (releaseOne_scheduler_does ?_)
      (.cons (releaseOne_fiber_does light) (.nil _)))) (.pure _)
    change 1 < c.handles
    omega
  refine goes_quiet shows wait frames round ?_ (by rw [signal]; rfl) does ?_
  · rw [World.notes, shows.thread.frames, frames]
  · let b' : Books := { b with spare := Function.update b.spare g 0, due := b.due - 1 }
    have freed : v.freed g = { c.freed g with frames := fs, handles := c.handles - 1 } := by
      have released := View.released_eq g c.toView v.toView rfl rfl
      rw [Scene.freed, released]
      rfl
    have store : Store p b' { c.freed g with frames := fs, handles := c.handles - 1 } := by
      refine live.store.refit ⟨rfl, rfl, rfl, rfl, rfl, rfl⟩ ⟨rfl, rfl, rfl, rfl⟩ ?_
        (Nat.le_refl _)
      change b.due - 1 + c.handles ≤ b.due + (c.handles - 1)
      omega
    rw [freed]
    have floor : Floor
        { c.freed g with frames := fs, handles := c.handles - 1 : Scene }.toView id
        [p.root, k.caller] ((k.tasking p front id none [] [] 0).known ++ b'.crew p) :=
      floor.congr rfl rfl rfl
    have live' : Live p (k.tasking p front id none [] [] 0) b'
        { c.freed g with frames := fs, handles := c.handles - 1 } := by
      refine ⟨⟨store, ?_, live.stock.seniors⟩, live.known, floor.current, live.chain, live.hand,
        live.risen, ?_, live.lent, live.active, live.stopping, live.autoStop⟩
      · have known : b.known = (k.tasking p front id none [] [] 0).known := live.known
        have chain : b.chain = [p.root, k.caller] := live.chain
        change Ground _ b.chain (b.known ++ b'.crew p)
        rw [known, chain]
        exact floor.ground
      · change b.due - 1 = 3 + k.begun.toNat + 0
        omega
    refine works_on (b := b') valid accounts live' wait (fun j => ?_) (.works ⟨[], false⟩ d)
      c.reports
    change Function.update b.spare g 0 j = 0
    rw [Function.update_apply, spare j]
    split
    · rfl
    · next other => exact if_neg (Ne.symm other)

end Waking

/-- A round of the fiber of a task. -/
theorem tasking_goes {entry : Option Body} {hand : List (Task Body)} {risen : List FiberId}
    {roused : Option FiberId} (one : p.config.threads = 1) (shows : p.Depicts c w)
    (valid : k.Valid)
    (accounts : front = .loopFiber (k.loop p) id ∨ front = .loopCallback (k.loop p) id)
    (wait : c.wait = none) (round : w.round = some w') (lawful : w.Lawful) (timely : w'.Timely)
    {fs : List Frame} (frames : c.frames = fs) {s : Signal} (signal : c.signal = s)
    (doing : Doing p id fs s entry hand risen roused)
    (live : Live p (k.tasking p front id entry hand risen roused.toList.length) b c)
    (spare : ∀ j, b.spare j = if roused = some j then 1 else 0)
    (waits : ∀ f, roused = some f → f ∈ b.fibers) :
    ∃ c', p.Depicts c' w' ∧ Phase p k.back (w.notes w'.thread.signal ++ b.notes) c' := by
  cases doing with
  | begins body d =>
    exact begins_goes shows valid accounts wait round timely signal frames live spare
  | works t d =>
    exact works_goes shows valid accounts wait round live spare one lawful timely frames signal
  | reports verb label t =>
    exact reports_goes shows valid accounts wait round live spare frames
  | answers verb label t d =>
    exact answers_goes shows valid accounts wait round live spare frames signal timely
  | rises verb label t d =>
    exact rises_goes shows valid accounts wait round signal live spare frames timely
  | rouses f d =>
    refine rouses_goes shows valid accounts wait round signal live (fun j => ?_) (waits f rfl)
      frames
    rw [spare j]
    simp only [Option.some.injEq]

end Station

end Fibers.Script
