import Fibers.Proofs.Manager.Crew

/-!
The actions of scripts. Each action that a script of a manager may take, but for those that give
control away, leaves the running fiber as it is and keeps the books; what it adds to them is what
the history says.
-/

namespace Fibers.Script

open Reactor (Registry)

/-- Nothing changed but the work. -/
structure Scene.Calm (c u : Scene) : Prop where
  frames : u.frames = c.frames
  current : u.current = c.current
  wait : u.wait = c.wait
  active : u.shared.active = c.shared.active
  stopping : u.shared.stopping = c.shared.stopping
  autoStop : u.shared.autoStop = c.shared.autoStop

theorem Scene.Calm.trans {c u v : Scene} (h : c.Calm u) (g : u.Calm v) : c.Calm v :=
  ⟨g.frames.trans h.frames, g.current.trans h.current, g.wait.trans h.wait,
    g.active.trans h.active, g.stopping.trans h.stopping, g.autoStop.trans h.autoStop⟩

/-- The books after something was entered that does not concern the run loop. -/
structure Books.Stays (b b' : Books) : Prop where
  known : b'.known = b.known
  chain : b'.chain = b.chain
  hand : b'.hand = b.hand
  risen : b'.risen = b.risen
  due : b'.due = b.due
  lent : b'.lent = b.lent
  spare : (∀ id, b.spare id = 0) → ∀ id, b'.spare id = 0

theorem Books.Stays.refl (b : Books) : b.Stays b := ⟨rfl, rfl, rfl, rfl, rfl, rfl, id⟩

theorem Books.Stays.trans {b b' b'' : Books} (h : b.Stays b') (g : b'.Stays b'') : b.Stays b'' :=
  ⟨g.known.trans h.known, g.chain.trans h.chain, g.hand.trans h.hand,
    g.risen.trans h.risen, g.due.trans h.due, g.lent.trans h.lent,
    fun zero => g.spare (h.spare zero)⟩

namespace Station

/-- Some notes were taken, and nothing else happened to the run loop. -/
def Keeps (p : Station) (b : Books) (c : Scene) (notes : List Note) (u : Scene) : Prop :=
  c.Calm u ∧ ∃ b', Stock p b' u ∧ b.Stays b' ∧ b'.notes = notes ++ b.notes

/-- An effect that only reads, or fails. -/
def Reads {α : Type} (p : Station) (c : Scene) (act : Act α) (good : α → Prop) : Prop :=
  ∀ w, p.Depicts c w → p.Ends w act fun r u =>
    u = c ∧ ((∃ a, r = .ok a ∧ good a) ∨ ∃ x, r = .error (.failure x))

variable {p : Station} {b : Books} {c u : Scene} {w w' : World} {α β : Type} {a : α}
  {post : Except Stop β → Scene → Prop} {notes : List Note} {name label : String}

theorem Keeps.refl (h : Stock p b c) : p.Keeps b c [] c :=
  ⟨⟨rfl, rfl, rfl, rfl, rfl, rfl⟩, b, h, .refl b, rfl⟩

namespace Reads

variable {good : α → Prop} {x : Act α} {f : α → Act β}

theorem pure (h : good a) : p.Reads c (pure a) good := fun _ shows =>
  .pure shows ⟨rfl, .inl ⟨a, rfl, h⟩⟩

theorem ends_bind (h : p.Reads c x good) (shows : p.Depicts c w)
    (ok : ∀ a w', p.Depicts c w' → good a → p.Ends w' (f a) post)
    (failed : ∀ e, post (.error (.failure e)) c) : p.Ends w (x >>= f) post := by
  refine (h w shows).bind (fun a u w' shows' first => ?_) (fun e u first => ?_)
  · obtain ⟨rfl, ⟨a', same, is⟩ | ⟨_, bad⟩⟩ := first
    · obtain rfl := Except.ok.inj same
      exact ok a w' shows' is
    · cases bad
  · obtain ⟨rfl, ⟨_, bad, _⟩ | ⟨e', same⟩⟩ := first
    · cases bad
    · obtain rfl := Except.error.inj same
      exact failed e'

theorem bind {good' : β → Prop} (h : p.Reads c x good)
    (g : ∀ a, good a → p.Reads c (f a) good') : p.Reads c (x >>= f) good' := fun _ shows =>
  h.ends_bind shows (fun a w' shows' is => g a is w' shows') fun e => ⟨rfl, .inr ⟨e, rfl⟩⟩

theorem map (h : p.Reads c x good) (g : α → β) :
    p.Reads c (g <$> x) fun b => ∃ a, good a ∧ b = g a := by
  intro w shows
  obtain ⟨u, told, rfl, ⟨a, same, is⟩ | ⟨e, same⟩⟩ := h w shows
  all_goals
    rcases did : x.on w with ⟨r, w'⟩
    rw [did] at told same
    obtain rfl := same
    refine ⟨u, ?_, ?_⟩ <;> rw [Act.on_map, did]
  · exact told
  · exact ⟨rfl, .inl ⟨g a, rfl, a, is, rfl⟩⟩
  · exact told
  · exact ⟨rfl, .inr ⟨e, rfl⟩⟩

theorem get {f : World → Act α} (h : ∀ w, p.Depicts c w → p.Reads c (f w) good) :
    p.Reads c (get >>= f) good := fun w shows => h w shows w shows

theorem named (t : Table String α) (name : String) :
    p.Reads c (named t name) fun a => t.get? name = some a := by
  intro w shows
  unfold Script.named
  cases found : t.get? name with
  | none => exact .fail shows ⟨rfl, .inr ⟨_, rfl⟩⟩
  | some a => exact .pure shows ⟨rfl, .inl ⟨a, rfl, rfl⟩⟩

end Reads

theorem blockOf_reads (body : BlockRef) :
    p.Reads c (blockOf body) fun i => body.index? = some i := by
  intro w shows
  cases body with
  | block i => exact .pure shows ⟨rfl, .inl ⟨i, rfl, rfl⟩⟩
  | unknown name => exact .fail shows ⟨rfl, .inr ⟨_, rfl⟩⟩

theorem reactorRecord_reads :
    p.Reads c (reactorRecord p.reactor) fun x => p.IsReactor c.table c.held x := by
  intro w shows
  obtain ⟨x, found, is⟩ := shows.reactor
  refine ⟨c, ?_, ?_⟩ <;> rw [reactorRecord_on found]
  · exact shows
  · exact ⟨rfl, .inl ⟨x, rfl, is⟩⟩

section Known

variable (known : p.Knows c.timers c.names)
include known

theorem schedulerNamed_reads (name : String) :
    p.Reads c (schedulerNamed name) (· = p.scheduler) := by
  refine .get fun w shows => ?_
  intro w' shows'
  refine (Reads.named _ _ w' shows').mono fun r u first => ⟨first.1, first.2.imp ?_ id⟩
  rintro ⟨s, is, found⟩
  exact ⟨s, is, known.schedulers name s (shows.names ▸ found)⟩

theorem reactorNamed_reads (name : String) :
    p.Reads c (reactorNamed name) fun x =>
      x = (p.scheduler, p.reactor) ∧ c.names.reactors.get? name = some x := by
  refine .get fun w shows => ?_
  intro w' shows'
  refine (Reads.named _ _ w' shows').mono fun r u first => ⟨first.1, first.2.imp ?_ id⟩
  rintro ⟨x, is, found⟩
  rw [shows.names] at found
  exact ⟨x, is, known.reactors name x found, found⟩

theorem timersNamed_reads (name : String) : p.Reads c (timersNamed name) (· = p.timers) := by
  refine .get fun w shows => ?_
  rw [shows.names, known.timerSets name]
  refine (reactorNamed_reads known name).bind fun x is => ?_
  obtain ⟨rfl, _⟩ := is
  exact reactorRecord_reads.bind fun x is => .pure is.timers

theorem timerNamed_reads (name : String) :
    p.Reads c (timerNamed name) fun x =>
      x.1 = p.timers ∧ c.names.timers.get? name = some x ∧
        ∀ s, c.timers.slots.get? x.2 = some s → s.callback.isWake = false := by
  refine .get fun w shows => ?_
  intro w' shows'
  refine (Reads.named _ _ w' shows').mono fun r u first => ⟨first.1, first.2.imp ?_ id⟩
  rintro ⟨⟨set, id⟩, is, found⟩
  rw [shows.names] at found
  obtain ⟨mine, _, quiet⟩ := known.timers name set id found
  exact ⟨_, is, mine, found, quiet⟩

end Known

theorem actionNotes_failed (label : String) (x : Failure) (act : Action) :
    w.actionNotes label (.failed x) act = [] := by
  unfold World.actionNotes
  split <;> rfl

/-- What an action of a script leads to, unless a deadline overflowed. -/
def After (p : Station) (b : Books) (c : Scene) (w : World) (label : String) (act : Action)
    (r : Except Stop Signal) (u : Scene) : Prop :=
  ending r = .raised .instantOverflow ∨ p.Keeps b c (w.actionNotes label (ending r) act) u

theorem After.failed (h : Stock p b c) (x : Failure) (act : Action) :
    p.After b c w label act (.error (.failure x)) c := by
  refine .inr ?_
  rw [ending, actionNotes_failed]
  exact .refl h

section Offered

variable {c₀ : Scene} {w₀ : World} {fs : List Frame} {task : TaskSpec}

theorem Depicts.fresh (shows : p.Depicts c₀ w₀) {id : FiberId} (fresh : w₀.Fresh id) :
    ∃ block label, w₀.bodyOf id = some (.script block label) ∧
      Scene.Fresh { c₀ with frames := fs } id block label := by
  obtain ⟨⟨r, block, label, found, state, entry⟩, frames, free⟩ := fresh
  obtain ⟨x, there, is⟩ := shows.scheduler
  refine ⟨block, label, ?_, ⟨⟨r, ?_, state, entry, Nat.zero_le _⟩, ?_⟩, fun e mem => ?_⟩
  · rw [World.bodyOf, found]
    exact entry
  · exact shows.fibers ▸ found
  · rintro _ ⟨⟩
    exact shows.saved ▸ frames
  · exact free p.scheduler x there e (is.shared.symm ▸ mem)

/-- A task that a script offers: a callback, or a fresh fiber with a handle more. -/
theorem taskOf_ends (shows₀ : p.Depicts c₀ w₀) (offers : w₀.Offers task)
    (shows : p.Depicts { c₀ with frames := fs } w) :
    p.Ends w (taskOf label task) fun r u =>
      (∃ x, r = .error (.failure x)) ∧ u = { c₀ with frames := fs } ∨
      (∃ i own, r = .ok (.callback (.script i own)) ∧
        w₀.bodyNamed label task = some (.script i own)) ∧ u = { c₀ with frames := fs } ∨
      ∃ id block own, r = .ok (.fiber id) ∧ w₀.bodyNamed label task = some (.script block own) ∧
        Scene.Fresh { c₀ with frames := fs } id block own ∧
        u = { c₀ with frames := fs, fibers := c₀.fibers.retain id } := by
  cases offers with
  | callback body own =>
    refine (blockOf_reads body).ends_bind shows (fun i w' shows' is => ?_) fun e =>
      .inl ⟨⟨e, rfl⟩, rfl⟩
    refine .pure shows' (.inr (.inl ⟨⟨i, _, rfl, ?_⟩, rfl⟩))
    rw [World.bodyNamed, is]
    rfl
  | fiber name fresh =>
    have reads : p.Reads { c₀ with frames := fs } (fiberNamed name) fun id =>
        c₀.names.fibers.get? name = some id := by
      refine .get fun v shows => ?_
      rw [shows.names]
      exact .named _ _
    refine reads.ends_bind shows (fun id w' shows' is => ?_) fun e => .inl ⟨⟨e, rfl⟩, rfl⟩
    have named : w₀.names.fibers.get? name = some id := shows₀.names ▸ is
    obtain ⟨block, own, body, new⟩ := shows₀.fresh (fresh id named)
    refine (retain_fiber_does id).ends_bind shows' fun v shows'' => .pure shows'' ?_
    refine .inr (.inr ⟨id, block, own, rfl, ?_, new, rfl⟩)
    rw [World.bodyNamed, named]
    exact body

theorem queuedAnswer_ends (s : SchedulerId) (shows : p.Depicts c w) :
    p.Ends w (queuedAnswer s) fun r u => u = c ∧ ∃ d, r = .ok (.done d) :=
  ⟨c, shows, rfl, _, rfl⟩

/-- A task is queued for any worker or for the only one. -/
theorem queues_keeps (h : Stock p b { c₀ with frames := fs }) (empty : b.hand = [])
    (shows₀ : p.Depicts c₀ w₀) (offers : w₀.Offers task)
    (shows : p.Depicts { c₀ with frames := fs } w) {worker : Option Nat}
    (pin : worker = none ∨ worker = some 0) {act : Action}
    (notes : ∀ s, w₀.actionNotes label s act =
      if s.isDone then (w₀.bodyNamed label task).toList.map .owed else [])
    {add : Task Body → Act Unit}
    (adds : ∀ t c, p.Does c (add t) ()
      { c with shared := { c.shared with queue := c.shared.queue ++ [⟨t, worker⟩] } }) :
    p.Ends w (do
        let t ← taskOf label task
        add t
        queuedAnswer p.scheduler)
      (p.After b { c₀ with frames := fs } w₀ label act) := by
  refine (taskOf_ends shows₀ offers shows).bind (fun t u w' shows' made => ?_)
    fun e u made => ?_
  · refine (adds t u).ends_bind shows' fun v shows'' => ?_
    refine (queuedAnswer_ends p.scheduler shows'').mono ?_
    rintro _ _ ⟨rfl, d, rfl⟩
    refine .inr ?_
    have owed : w₀.actionNotes label (ending (.ok (.done d))) act =
        (w₀.bodyNamed label task).toList.map .owed := notes _
    rw [owed]
    rcases made with ⟨⟨_, bad⟩, _⟩ | ⟨⟨i, own, same, body⟩, rfl⟩ |
      ⟨id, block, own, same, body, new, rfl⟩
    · cases bad
    · obtain rfl := Except.ok.inj same
      rw [body]
      exact ⟨⟨rfl, rfl, rfl, rfl, rfl, rfl⟩, _, h.queues_callback (.script i own) pin,
        ⟨rfl, rfl, rfl, rfl, rfl, rfl, id⟩, rfl⟩
    · obtain rfl := Except.ok.inj same
      rw [body]
      refine ⟨⟨rfl, rfl, rfl, rfl, rfl, rfl⟩, _, h.queues_fiber empty new pin,
        ⟨rfl, rfl, rfl, rfl, rfl, rfl, fun zero j => ?_⟩, ?_⟩
      · simp only [Books.joined, Function.update_apply]
        split
        · rfl
        · exact zero j
      · simp only [Books.joined, taskBodies, Function.update_self, Posture.bodies]
        rfl
  · rcases made with ⟨⟨x, same⟩, rfl⟩ | ⟨⟨_, _, bad, _⟩, _⟩ | ⟨_, _, _, bad, _⟩
    · obtain rfl := Except.error.inj same
      exact .failed h x act
    · cases bad
    · cases bad

theorem schedule_keeps (h : Stock p b { c₀ with frames := fs }) (empty : b.hand = [])
    (shows₀ : p.Depicts c₀ w₀) (offers : w₀.Offers task)
    (shows : p.Depicts { c₀ with frames := fs } w) :
    p.Ends w (perform label (.scheduler (.schedule name task)))
      (p.After b { c₀ with frames := fs } w₀ label (.scheduler (.schedule name task))) := by
  refine (schedulerNamed_reads h.names name).ends_bind shows (fun s w' shows' is => ?_) fun e =>
    .failed h e _
  obtain rfl := is
  exact queues_keeps h empty shows₀ offers shows' (.inl rfl) (fun _ => rfl) fun t _ =>
    enqueue_does [⟨t, none⟩]

theorem scheduleOn_keeps (one : p.config.threads = 1) (h : Stock p b { c₀ with frames := fs })
    (empty : b.hand = []) (shows₀ : p.Depicts c₀ w₀) (offers : w₀.Offers task)
    (shows : p.Depicts { c₀ with frames := fs } w) :
    p.Ends w (perform label (.scheduler (.scheduleOn name task 0)))
      (p.After b { c₀ with frames := fs } w₀ label (.scheduler (.scheduleOn name task 0))) := by
  refine (schedulerNamed_reads h.names name).ends_bind shows (fun s w' shows' is => ?_) fun e =>
    .failed h e _
  obtain rfl := is
  refine queues_keeps h empty shows₀ offers shows' (.inr rfl) (fun _ => rfl) fun t c =>
    Does.schedulerRecord fun x is => ?_
  rw [is.config]
  dsimp only
  rw [one, if_neg (by decide)]
  exact enqueue_does [⟨t, some 0⟩]

end Offered

variable {w₀ : World}

theorem log_keeps (h : Stock p b c) (shows : p.Depicts c w) (value : Datum) :
    p.Ends w (perform label (.fiber (.log value)))
      (p.After b c w₀ label (.fiber (.log value))) :=
  .pure shows (.inr (.refl h))

theorem nameFiber_does (id : FiberId) (new : c.names.fibers.get? name = none) :
    p.Does c (nameFiber name id) ()
      { c with names := { c.names with fibers := c.names.fibers.put name id } } := by
  refine Does.get fun w shows => ?_
  rw [shows.names, new]
  refine Does.bind (Does.modify fun w' shows' => ?_) release_nil_does
  exact { shows' with names := by rw [shows'.names] }

/-- Finishes an attempt to make a fiber under a name. -/
def spawned (name : String) : Except SchedFault FiberId → Act Signal
  | .error e => fail (.fault e)
  | .ok id => do
    nameFiber name id
    return .done (.nat id.val)

theorem spawn_keeps (h : Stock p b c) (shows : p.Depicts c w)
    (new : c.names.fibers.get? name = none) (spec : SpawnSpec) :
    p.Ends w (perform label (.fiber (.spawn name spec)))
      (p.After b c w₀ label (.fiber (.spawn name spec))) := by
  refine (blockOf_reads spec.body).ends_bind shows (fun i w' shows' _ => ?_) fun e => .failed h e _
  have made : ∀ size inScheduler, p.Ends w'
      (makeFiber (.script i (spec.label.getD name)) size inScheduler >>= spawned name)
      (p.After b c w₀ label (.fiber (.spawn name spec))) := by
    intro size inScheduler
    refine (makeFiber_ends rfl shows').bind (fun a u v shown made => ?_) fun e u made => ?_
    · rcases made with ⟨⟨e, same⟩, rfl⟩ | ⟨usable, same, rfl⟩
      · obtain rfl := Except.ok.inj same
        exact .fail shown (.failed h _ _)
      · obtain rfl := Except.ok.inj same
        let made := c.withFiber (.script i (spec.label.getD name)) usable inScheduler
        have named : p.Does made (nameFiber name ⟨c.fibers.lastId + 1⟩) () _ :=
          nameFiber_does ⟨c.fibers.lastId + 1⟩ new
        refine named.ends_bind shown fun _ told => .pure told (.inr ?_)
        exact ⟨⟨rfl, rfl, rfl, rfl, rfl, rfl⟩, b, h.spawns _ usable inScheduler name, .refl b, rfl⟩
    · rcases made with ⟨⟨_, bad⟩, _⟩ | ⟨_, bad, _⟩ <;> cases bad
  change p.Ends w' (if spec.plain then _ else _) _
  split
  · exact made _ _
  · exact made _ _

theorem handles_of_script {callback : TimerBody} (script : callback.isWake = false) :
    callback.handles = [] := by
  cases callback with
  | wake => cases script
  | _ => rfl

theorem nameTimer_does (name : String) (set id : Nat) :
    p.Does c (nameTimer name set id) ()
      { c with names := { c.names with timers := c.names.timers.put name (set, id) } } :=
  Does.modify fun w shows => { shows with names := by rw [shows.names] }

/-- Finishes an attempt to arm a timer. -/
def added (set : Nat) (callback : TimerBody) : Option (Nat × Bool) → Act Nat
  | none => do
    release callback.handles
    raise .instantOverflow
  | some (id, wake) => do
    if wake then notifyFront set
    return id

/-- A timer is armed, if its deadline can be told. -/
theorem addTimer_armed (shows : p.Depicts c w) {delay : Duration} {callback : TimerBody}
    {recurring wake : Bool} {m : Timers TimerBody} {id : Nat}
    (armed : c.timers.add w.clock delay callback recurring = (m, some (id, wake))) :
    ∃ w', (addTimer p.timers delay callback recurring).on w = (.ok id, w') ∧
      p.Depicts { c with timers := m } w' := by
  have does : p.Does c (onTimers p.timers (·.add w.clock delay callback recurring) >>=
      added p.timers callback) id { c with timers := m } := by
    have added := onTimers_does (p := p) (c := c) (·.add w.clock delay callback recurring)
    rw [armed] at added
    refine added.bind ?_
    change p.Does _ (if wake then notifyFront p.timers >>= fun _ => pure id else pure id) id _
    exact .when_bind notifyFront_does (.pure _)
  exact does w shows

theorem addTimer_ends (shows : p.Depicts c w) (delay : Duration) {callback : TimerBody}
    (recurring : Bool) (script : callback.isWake = false) (kept : c.timers.Kept) :
    p.Ends w (addTimer p.timers delay callback recurring) fun r u =>
      r = .error (.panic .instantOverflow) ∨
      ∃ m slot, r = .ok (c.timers.lastId + 1) ∧ u = { c with timers := m } ∧ m.Kept ∧
        m.lastId = c.timers.lastId + 1 ∧ slot.callback = callback ∧ slot.recurring = recurring ∧
        m.slots = c.timers.slots.put (c.timers.lastId + 1) slot ∧
        m.owed = Timers.owing slot ++ c.timers.owed := by
  obtain ⟨m, res, added, kept', last, ⟨rfl, _⟩ | ⟨wake, slot, rfl, body, recurs, slots, owed⟩⟩ :
      ∃ m res, c.timers.add w.clock delay callback recurring = (m, res) ∧ _ :=
    Timers.add_owed kept delay callback recurring
  · have does := onTimers_does (p := p) (c := c) (·.add w.clock delay callback recurring)
    rw [added] at does
    refine Ends.get (does.ends_bind shows fun w' shows' => ?_)
    rw [handles_of_script script]
    exact release_nil_does.ends_bind shows' fun _ told => .raise told (.inl rfl)
  · obtain ⟨w', did, shows'⟩ := addTimer_armed shows added
    refine ⟨{ c with timers := m }, ?_, ?_⟩ <;> rw [did]
    · exact shows'
    · exact .inr ⟨m, slot, rfl, rfl, kept', last, body, recurs, slots, owed⟩

/-- A timer of a script is armed under a name. -/
theorem armTimer_keeps (h : Stock p b c) (shows : p.Depicts c w) (delay : Duration)
    {callback : TimerBody} (recurring : Bool) (script : callback.isWake = false) {act : Action}
    (notes : ∀ d, w₀.actionNotes label (.done d) act =
      if recurring then [] else [.owed (.timer callback)]) :
    p.Ends w (armTimer p.timers name delay callback recurring) (p.After b c w₀ label act) := by
  refine (addTimer_ends shows delay recurring script h.timers).bind (fun id u w' shows' made => ?_)
    fun e u made => ?_
  · rcases made with bad | ⟨m, slot, same, rfl, kept, last, body, recurs, slots, owed⟩
    · cases bad
    · obtain rfl := Except.ok.inj same
      refine (nameTimer_does name p.timers _).ends_bind shows' fun v shown => .pure shown (.inr ?_)
      rw [ending, notes]
      have stock := h.adds_timer script kept last body recurs slots owed name
      refine ⟨⟨rfl, rfl, rfl, rfl, rfl, rfl⟩, _, stock, ⟨rfl, rfl, rfl, rfl, rfl, rfl, id⟩, ?_⟩
      cases recurring <;> rfl
  · rcases made with same | ⟨_, _, bad, _⟩
    · obtain rfl := Except.error.inj same
      exact .inl rfl
    · cases bad

theorem addTimerAction_keeps (h : Stock p b c) (shows : p.Depicts c w) (timers : String)
    (delay : Duration) (body : BlockRef) (recurring : Bool) :
    p.Ends w (perform label (.timer (.add timers name delay body recurring)))
      (p.After b c w₀ label (.timer (.add timers name delay body recurring))) := by
  refine (timersNamed_reads h.names timers).ends_bind shows (fun set w' shows' is => ?_) fun e =>
    .failed h e _
  obtain rfl := is
  refine (blockOf_reads body).ends_bind shows' (fun i v shown is => ?_) fun e => .failed h e _
  refine armTimer_keeps h shown delay recurring rfl fun d => ?_
  simp only [World.actionNotes, Signal.isDone, is]
  cases recurring <;> rfl

theorem addGuarded_keeps (h : Stock p b c) (shows : p.Depicts c w) (same : w₀.names = c.names)
    (timers : String) (delay : Duration) (body : BlockRef) (recurring : Bool) (object : String) :
    p.Ends w (perform label (.timer (.addGuarded timers name delay body recurring object)))
      (p.After b c w₀ label (.timer (.addGuarded timers name delay body recurring object))) := by
  refine (timersNamed_reads h.names timers).ends_bind shows (fun set w' shows' is => ?_) fun e =>
    .failed h e _
  obtain rfl := is
  refine (blockOf_reads body).ends_bind shows' (fun i v shown is => ?_) fun e => .failed h e _
  have reads : p.Reads c (do Script.named (← get).names.objects object) fun o =>
      c.names.objects.get? object = some o := by
    refine .get fun v shown => ?_
    rw [shown.names]
    exact .named _ _
  refine reads.ends_bind shown (fun o v shown found => ?_) fun e => .failed h e _
  refine armTimer_keeps h shown delay recurring rfl fun d => ?_
  simp only [World.actionNotes, Signal.isDone, is, same, found]
  cases recurring <;> rfl

theorem refresh_keeps (h : Stock p b c) (shows : p.Depicts c w) :
    p.Ends w (perform label (.timer (.refresh name)))
      (p.After b c w₀ label (.timer (.refresh name))) := by
  refine (timerNamed_reads h.names name).ends_bind shows (fun x w' shows' is => ?_) fun e =>
    .failed h e _
  obtain ⟨set, id⟩ := x
  obtain ⟨rfl, -⟩ := is
  obtain ⟨m, res, refreshed, kept, last, inherits, owed⟩ :=
    Timers.refresh_owed h.timers w'.clock id
  have does := onTimers_does (p := p) (c := c) (·.refresh w'.clock id)
  rw [refreshed] at does
  have stock := h.keeps_timers kept last inherits owed
  have keeps : p.Keeps b c [] { c with timers := m } :=
    ⟨⟨rfl, rfl, rfl, rfl, rfl, rfl⟩, b, stock, .refl b, rfl⟩
  refine Ends.get (does.ends_bind shows' fun v shown => ?_)
  cases res with
  | absent => exact .pure shown (.inr keeps)
  | unchanged => exact .pure shown (.inr keeps)
  | overflow => exact .raise shown (.inl rfl)
  | armed wake =>
    have told : p.Does { c with timers := m } (rearmed p.timers (.armed wake)) true
        { c with timers := m } := by
      unfold rearmed
      exact .when_bind notifyFront_does (.pure true)
    exact told.ends_bind shown fun _ told => .pure told (.inr keeps)

theorem cancel_keeps (h : Stock p b c) (shows : p.Depicts c w)
    (before : ∀ set id, c.names.timers.get? name = some (set, id) → set = p.timers →
      w₀.owedUnder name = ((c.timers.slots.get? id).map Timers.owing).getD []) :
    p.Ends w (perform label (.timer (.cancel name)))
      (p.After b c w₀ label (.timer (.cancel name))) := by
  refine (timerNamed_reads h.names name).ends_bind shows (fun x w' shows' is => ?_) fun e =>
    .failed h e _
  obtain ⟨set, id⟩ := x
  obtain ⟨rfl, found, script⟩ := is
  have before := before _ id found rfl
  obtain ⟨m, res, cancelled, kept, last, inherits, ⟨rfl, rfl⟩ | ⟨s, rfl, there, owed⟩⟩ :=
    Timers.cancel_owed h.timers id
  · have does := onTimers_does (p := p) (c := c) (·.cancel id)
    rw [cancelled] at does
    have none : p.Does c (cancelTimer p.timers id) false c := does.bind (.pure _)
    exact none.ends_bind shows' fun _ told => .pure told (.inr (.refl h))
  · have does := onTimers_does (p := p) (c := c) (·.cancel id)
    rw [cancelled] at does
    have script := script s there
    have some : p.Does c (cancelTimer p.timers id) true { c with timers := m } := by
      refine does.bind ?_
      dsimp only
      rw [handles_of_script script]
      exact release_nil_does.bind (.pure _)
    refine some.ends_bind shows' fun _ told => .pure told (.inr ?_)
    obtain ⟨tasks, stock⟩ := h.cancels_timer kept last inherits owed script
    refine ⟨⟨rfl, rfl, rfl, rfl, rfl, rfl⟩, _, stock, ⟨rfl, rfl, rfl, rfl, rfl, rfl, fun z => z⟩,
      ?_⟩
    rw [there] at before
    simp only [ending, World.actionNotes, Signal.isYes, before, if_true, Option.map_some,
      Option.getD_some]

section Events

variable {m : Registry Handler} {t : Reactor.FdTable Handler} {fd : Int} {event : Event}

/-- How arming an event ends. -/
theorem arm_outcome (holds : t.Holds m) (single : event.isSingle = true)
    (inside : 0 ≤ fd ∧ fd < t.size) (epoll : Nat) (k : Kernel.State) (x : Handler) :
    ∃ k' t' a, t.arm (Reactor.epollPoller epoll) k fd event x = (k', t', a) ∧
      Kernel.State.Spares epoll k k' ∧
      (((∃ v, a = .violated v) ∨ ∃ op interest e, a = .refused op interest e) ∧ t' = t ∨
        a = .done ∧ m.contains (fd, event) = false ∧ t'.Holds (m.put (fd, event) x)) := by
  cases occupied : m.contains (fd, event) with
  | true =>
    exact ⟨_, _, _, holds.arm_occupied single occupied x, .refl k, .inl ⟨.inl ⟨_, rfl⟩, rfl⟩⟩
  | false =>
    have asked : t.arm (Reactor.epollPoller epoll) k fd event x = _ :=
      holds.arm_eq single occupied x
    have spares := k.tell_spares epoll fd (m.armed fd) ((m.armed fd).union event)
    rcases told : (Reactor.epollPoller epoll).tell k fd (m.armed fd) ((m.armed fd).union event) with
      ⟨k', _ | _⟩
    all_goals rw [told] at asked spares
    · exact ⟨_, _, _, asked, spares, .inl ⟨.inr ⟨_, _, _, rfl⟩, rfl⟩⟩
    · exact ⟨_, _, _, asked, spares, .inr ⟨rfl, rfl, holds.put single inside occupied x⟩⟩

/-- How deleting an event ends. -/
theorem delete_outcome (holds : t.Holds m) (single : event.isSingle = true) (epoll : Nat)
    (k : Kernel.State) :
    ∃ k' t' a, t.delete (Reactor.epollPoller epoll) k fd event = (k', t', a) ∧
      Kernel.State.Spares epoll k k' ∧
      ((a = .absent ∨ ∃ e, a = .refused e) ∧ t' = t ∨
        ∃ x, m.get? (fd, event) = some x ∧ a = .done [x] ∧ t'.Holds (m.erase (fd, event))) := by
  cases found : m.get? (fd, event) with
  | none => exact ⟨_, _, _, holds.delete_absent single found, .refl k, .inl ⟨.inl rfl, rfl⟩⟩
  | some x =>
    have spares := k.tell_spares epoll fd (m.armed fd) ((m.armed fd).without event)
    rcases told : (Reactor.epollPoller epoll).tell k fd (m.armed fd)
      ((m.armed fd).without event) with ⟨k', e | _⟩
    all_goals rw [told] at spares
    · exact ⟨_, _, _, holds.delete_refused single found told, spares, .inl ⟨.inr ⟨e, rfl⟩, rfl⟩⟩
    · obtain ⟨t', done, holds'⟩ := holds.delete_done single found told
      exact ⟨_, _, _, done, spares, .inr ⟨x, rfl, rfl, holds'⟩⟩

/-- How cancelling all events of a number ends. -/
theorem cancelAll_outcome (holds : t.Holds m) (epoll : Nat) (k : Kernel.State) :
    ∃ k' t' a, t.cancelAll (Reactor.epollPoller epoll) k fd = (k', t', a) ∧
      Kernel.State.Spares epoll k k' ∧
      ((a = .absent ∨ ∃ e, a = .refused e) ∧ t' = t ∨
        a = .done (m.fire fd [.readable, .writable]).2 ∧
          t'.Holds (m.fire fd [.readable, .writable]).1) := by
  cases empty : (m.armed fd).isEmpty with
  | true => exact ⟨_, _, _, holds.cancelAll_absent empty, .refl k, .inl ⟨.inl rfl, rfl⟩⟩
  | false =>
    have spares := k.tell_spares epoll fd (m.armed fd) .none
    rcases told : (Reactor.epollPoller epoll).tell k fd (m.armed fd) .none with ⟨k', e | _⟩
    all_goals rw [told] at spares
    · exact ⟨_, _, _, holds.cancelAll_refused empty told, spares, .inl ⟨.inr ⟨e, rfl⟩, rfl⟩⟩
    · obtain ⟨t', done, holds'⟩ := holds.cancelAll_done empty told
      exact ⟨_, _, _, done, spares, .inr ⟨rfl, holds'⟩⟩

end Events

variable {fd : Int} {event : Event} {i : Nat} {own : String}

/-- What arming an event comes to, after room was made for it. -/
theorem arms_keeps (h : Stock p b c) (shows : p.Depicts c w) (single : event.isSingle = true)
    (inside : 0 ≤ fd ∧ fd < c.table.size) {act : Action}
    (notes : ∀ s, w₀.actionNotes label s act =
      if s.isDone then [.owed (.script i own)] else []) :
    p.Ends w (onTable p.reactor (fun poller k t => t.arm poller k fd event
        ⟨p.scheduler, .callback (.script i own)⟩) >>=
          armed fd (.callback (.script i own)) p.scheduler)
      (p.After b c w₀ label act) := by
  refine (onTable_ends (fun k => arm_outcome h.table single inside p.epoll k _) shows).bind
    (fun a u w' shows' made => ?_) (fun e u made => ?_)
  · obtain ⟨a', t, same, outcome, rfl⟩ := made
    obtain rfl := Except.ok.inj same
    rcases outcome with ⟨⟨v, rfl⟩ | ⟨op, interest, e, rfl⟩, rfl⟩ | ⟨rfl, free, holds⟩
    · refine Does.ends_bind (.log _ _) shows' fun v shown => ?_
      refine release_nil_does.ends_bind shown fun _ told => .raise told (.inr ?_)
      rw [ending, notes]
      exact .refl h
    · refine Does.ends_bind (.log _ _) shows' fun v shown => ?_
      exact release_nil_does.ends_bind shown fun _ told => .fail told (.failed h _ _)
    · refine retain_scheduler_does.ends_bind shows' fun v shown => .pure shown (.inr ?_)
      rw [ending, notes]
      exact ⟨⟨rfl, rfl, rfl, rfl, rfl, rfl⟩, _, h.arms ⟨rfl, i, own, rfl⟩ rfl free holds,
        ⟨rfl, rfl, rfl, rfl, rfl, rfl, fun z => z⟩, rfl⟩
  · obtain ⟨_, _, bad, _⟩ := made
    cases bad

/-- A handler is added that queues a callback of a script. -/
theorem addEvent_keeps (h : Stock p b c) (shows : p.Depicts c w) (single : event.isSingle = true)
    {act : Action}
    (notes : ∀ s, w₀.actionNotes label s act =
      if s.isDone then [.owed (.script i own)] else []) :
    p.Ends w (addEvent p.scheduler p.reactor fd event (some (.callback (.script i own))))
      (p.After b c w₀ label act) := by
  obtain ⟨x, found, is⟩ := shows.reactor
  cases reserved : x.table.reserve fd with
  | error fault =>
    have run : (addEvent p.scheduler p.reactor fd event (some (.callback (.script i own)))).on w =
        (.error (.failure (.fault fault)), w) := by
      unfold addEvent
      simp only [single, Bool.not_true, if_false, Bool.false_eq_true]
      rw [Act.on_bind_ok (reactorRecord_on found), reserved]
      exact Act.on_bind_ok (release_nil w)
    refine ⟨c, ?_, ?_⟩ <;> rw [run]
    · exact shows
    · exact .failed h _ _
  | ok made =>
    obtain ⟨t, grown⟩ := made
    obtain ⟨v, quiet, run⟩ :=
      addEvent_on found p.scheduler single reserved (.callback (.script i own))
    rw [shows.currentScheduler, Option.getD_some] at run
    obtain ⟨holds, inside⟩ := (is.table.symm ▸ h.table).reserve reserved
    have shows' : p.Depicts { c with table := t } v := by
      refine Depicts.quiet ?_ quiet
      exact { shows with
        reactor := ⟨_, withTable_get? found w.kernel t, { is with table := rfl }⟩ }
    obtain ⟨u, told, good⟩ := arms_keeps (h.retabled holds) shows' single inside notes
    refine ⟨u, ?_, ?_⟩ <;> rw [run]
    · exact told
    · have calm : c.Calm { c with table := t } := ⟨rfl, rfl, rfl, rfl, rfl, rfl⟩
      exact good.imp_right fun keeps => ⟨calm.trans keeps.1, keeps.2⟩

/-- How disarming ends, where something has still to be done about handlers that were entered. -/
theorem disarmed_ends {what : String} {finish : List Handler → Act Unit} {act : Action}
    {a : Reactor.FdTable.Disarmed Handler} (h : Stock p b c)
    (nothing : w₀.actionNotes label (.done (.flag false)) act = [])
    (outcome : (a = .absent ∨ ∃ e, a = .refused e) ∧ u = c ∨
      ∃ hs v, a = .done hs ∧ p.Does u (finish hs) () v ∧
        p.Keeps b c (w₀.actionNotes label (.done (.flag true)) act) v)
    (shows' : p.Depicts u w') :
    p.Ends w' (disarmed what finish a) (p.After b c w₀ label act) := by
  have no : p.After b c w₀ label act (.ok (.done (.flag false))) c := by
    refine .inr ?_
    rw [ending, nothing]
    exact .refl h
  rcases outcome with ⟨rfl | ⟨e, rfl⟩, rfl⟩ | ⟨hs, v, rfl, does, keeps⟩
  · exact .pure shows' no
  · exact Does.ends_bind (.log _ _) shows' fun _ told => .pure told no
  · exact does.ends_bind shows' fun _ told => .pure told (.inr keeps)

theorem handle_keeps (h : Stock p b c) (shows : p.Depicts c w) (single : event.isSingle = true)
    (body : BlockRef) :
    p.Ends w (perform label (.reactor (.on name fd event body)))
      (p.After b c w₀ label (.reactor (.on name fd event body))) := by
  refine (reactorNamed_reads h.names name).ends_bind shows (fun x w' shows' is => ?_) fun e =>
    .failed h e _
  obtain ⟨rfl, -⟩ := is
  refine (blockOf_reads body).ends_bind shows' (fun i v shown is => ?_) fun e => .failed h e _
  refine addEvent_keeps h shown single fun s => ?_
  simp only [World.actionNotes, is]
  rfl

theorem handleAs_keeps (h : Stock p b c) (shows : p.Depicts c w) (single : event.isSingle = true)
    (body : BlockRef) (own : Option String) :
    p.Ends w (perform label (.reactor (.add name fd event (some (.callback body own)))))
      (p.After b c w₀ label (.reactor (.add name fd event (some (.callback body own))))) := by
  refine (reactorNamed_reads h.names name).ends_bind shows (fun x w' shows' is => ?_) fun e =>
    .failed h e _
  obtain ⟨rfl, -⟩ := is
  have reads : p.Reads c (taskOf label (.callback body own)) fun t =>
      ∃ i, body.index? = some i ∧ t = .callback (.script i (own.getD label)) :=
    (blockOf_reads body).bind fun i is => .pure ⟨i, is, rfl⟩
  refine (reads.map some).ends_bind shows' (fun t v shown is => ?_) fun e => .failed h e _
  obtain ⟨_, ⟨i, is, rfl⟩, rfl⟩ := is
  refine addEvent_keeps h shown single fun s => ?_
  simp only [World.actionNotes, World.bodyNamed, is]
  rfl

theorem delete_keeps (h : Stock p b c) (due : 1 ≤ b.due) (shows : p.Depicts c w)
    (single : event.isSingle = true)
    (before : ∀ x, c.names.reactors.get? name = some x → x = (p.scheduler, p.reactor) →
      w₀.handling name fd event = ((c.table.slot fd).handler event).map Handler.task) :
    p.Ends w (perform label (.reactor (.delete name fd event)))
      (p.After b c w₀ label (.reactor (.delete name fd event))) := by
  refine (reactorNamed_reads h.names name).ends_bind shows (fun x w' shows' is => ?_) fun e =>
    .failed h e _
  obtain ⟨rfl, named⟩ := is
  have before := before _ named rfl
  refine (onTable_ends (fun k => delete_outcome h.table single p.epoll k) shows').bind
    (fun a u v shown made => ?_) (fun e u made => ?_)
  · obtain ⟨a', t, same, outcome, rfl⟩ := made
    obtain rfl := Except.ok.inj same
    refine disarmed_ends h rfl (outcome.imp (fun no => ⟨no.1, by rw [no.2]⟩) ?_) shown
    rintro ⟨x, found, rfl, holds⟩
    have mem : x ∈ b.registry.values := (Table.mem_values h.table.distinct x).mpr ⟨_, found⟩
    obtain ⟨mine, block, own, task⟩ := h.handlers x mem
    have some : 1 ≤ b.registry.size := by
      rw [← Stock.values_length]
      exact List.length_pos_of_mem mem
    have enough := h.handles
    obtain ⟨tasks, stock⟩ := h.deletes_handler found task (.script block own) holds
    refine ⟨[x], { c with table := t, handles := c.handles - 1 }, rfl, ?_, ?_⟩
    · have handles : [x].flatMap Handler.handles = [.scheduler p.scheduler] := by
        rw [List.flatMap_cons, List.flatMap_nil, Handler.handles, mine, task]
        rfl
      rw [dropHandlers, handles]
      exact release_scheduler_does (show 1 < c.handles by omega)
    · refine ⟨⟨rfl, rfl, rfl, rfl, rfl, rfl⟩, _, stock,
        ⟨rfl, rfl, rfl, rfl, rfl, rfl, fun z => z⟩, ?_⟩
      rw [h.table.slot, b.registry.slot_handler fd single, found, Option.map_some, task] at before
      simp only [World.actionNotes, Signal.isYes, before, if_true]
      rfl
  · obtain ⟨_, _, bad, _⟩ := made
    cases bad

/-- Handlers that fire queue their callbacks. -/
theorem fires_keeps (h : Stock p b c) (due : 1 ≤ b.due) {t : Reactor.FdTable Handler}
    {m : Registry Handler} {hs : List Handler} (fired : b.registry.values.Perm (hs ++ m.values))
    (holds : t.Holds m) :
    ∃ v, p.Does { c with table := t } (fireAll hs) () v ∧ p.Keeps b c [] v := by
  have enough := h.handles
  have size := fired.length_eq
  rw [List.length_append, Stock.values_length] at size
  refine ⟨_, fireAll_does (fun x mem => ?_) (show hs.length < c.handles by omega), ?_⟩
  · exact (h.handlers x (fired.mem_iff.mpr (List.mem_append_left _ mem))).scheduler
  · exact ⟨⟨rfl, rfl, rfl, rfl, rfl, rfl⟩, _, h.fires fired holds,
      ⟨rfl, rfl, rfl, rfl, rfl, rfl, fun z => z⟩, rfl⟩

theorem cancelEvent_keeps (h : Stock p b c) (due : 1 ≤ b.due) (shows : p.Depicts c w)
    (single : event.isSingle = true) :
    p.Ends w (perform label (.reactor (.cancel name fd event)))
      (p.After b c w₀ label (.reactor (.cancel name fd event))) := by
  refine (reactorNamed_reads h.names name).ends_bind shows (fun x w' shows' is => ?_) fun e =>
    .failed h e _
  obtain ⟨rfl, -⟩ := is
  refine (onTable_ends (fun k => h.table.cancel_eq_delete single ▸
    delete_outcome h.table single p.epoll k) shows').bind
    (fun a u v shown made => ?_) (fun e u made => ?_)
  · obtain ⟨a', t, same, outcome, rfl⟩ := made
    obtain rfl := Except.ok.inj same
    refine disarmed_ends h rfl (outcome.imp (fun no => ⟨no.1, by rw [no.2]⟩) ?_) shown
    rintro ⟨x, found, rfl, holds⟩
    have fired : b.registry.values.Perm ([x] ++ _) := Table.values_erase h.table.distinct found
    obtain ⟨v, does, keeps⟩ := fires_keeps h due fired holds
    exact ⟨[x], v, rfl, does, keeps⟩
  · obtain ⟨_, _, bad, _⟩ := made
    cases bad

theorem cancelAll_keeps (h : Stock p b c) (due : 1 ≤ b.due) (shows : p.Depicts c w) :
    p.Ends w (perform label (.reactor (.cancelAll name fd)))
      (p.After b c w₀ label (.reactor (.cancelAll name fd))) := by
  refine (reactorNamed_reads h.names name).ends_bind shows (fun x w' shows' is => ?_) fun e =>
    .failed h e _
  obtain ⟨rfl, -⟩ := is
  refine (onTable_ends (fun k => cancelAll_outcome h.table p.epoll k) shows').bind
    (fun a u v shown made => ?_) (fun e u made => ?_)
  · obtain ⟨a', t, same, outcome, rfl⟩ := made
    obtain rfl := Except.ok.inj same
    refine disarmed_ends h rfl (outcome.imp (fun no => ⟨no.1, by rw [no.2]⟩) ?_) shown
    rintro ⟨rfl, holds⟩
    obtain ⟨v, does, keeps⟩ := fires_keeps h due (Registry.fire_values h.table.distinct fd _) holds
    exact ⟨_, v, rfl, does, keeps⟩
  · obtain ⟨_, _, bad, _⟩ := made
    cases bad

variable {c₀ : Scene} {fs : List Frame} {act : Action}

theorem Depicts.timersOf (shows : p.Depicts c w) : w.timersOf p.timers = c.timers := by
  obtain ⟨x, found, same⟩ := shows.timers
  rw [World.timersOf, found]
  exact same

/-- An action of a script gives control away, or keeps the books. -/
theorem allowed_keeps (one : p.config.threads = 1) (h : Stock p b { c₀ with frames := fs })
    (empty : b.hand = []) (due : 1 ≤ b.due) (shows₀ : p.Depicts c₀ w₀)
    (shows : p.Depicts { c₀ with frames := fs } w) (allows : w₀.Allows act) :
    act = .fiber .yieldReady ∨ (∃ d, act = .fiber (.sleep d)) ∨
      p.Ends w (perform label act) (p.After b { c₀ with frames := fs } w₀ label act) := by
  cases allows with
  | yields => exact .inl rfl
  | sleeps d => exact .inr (.inl ⟨d, rfl⟩)
  | log value => exact .inr (.inr (log_keeps h shows value))
  | spawn name spec new => exact .inr (.inr (spawn_keeps h shows (shows₀.names ▸ new) spec))
  | schedule name offers => exact .inr (.inr (schedule_keeps h empty shows₀ offers shows))
  | scheduleOn name offers => exact .inr (.inr (scheduleOn_keeps one h empty shows₀ offers shows))
  | adds timers name delay body recurring =>
    exact .inr (.inr (addTimerAction_keeps h shows timers delay body recurring))
  | addsGuarded timers name delay body recurring object =>
    exact .inr (.inr
      (addGuarded_keeps h shows shows₀.names timers delay body recurring object))
  | cancels name =>
    refine .inr (.inr (cancel_keeps h shows fun set id named mine => ?_))
    have named : w₀.names.timers.get? name = some (set, id) := shows₀.names ▸ named
    rw [World.owedUnder, named, mine]
    dsimp only
    rw [shows₀.timersOf]
  | refreshes name => exact .inr (.inr (refresh_keeps h shows))
  | handles name fd single body => exact .inr (.inr (handle_keeps h shows single body))
  | handlesAs name fd single body own =>
    exact .inr (.inr (handleAs_keeps h shows single body own))
  | deletes name fd single =>
    refine .inr (.inr (delete_keeps h due shows single fun x named mine => ?_))
    obtain ⟨y, found, is⟩ := shows₀.reactor
    have named : w₀.names.reactors.get? name = some x := shows₀.names ▸ named
    rw [World.handling, named, mine, Option.bind_some, found, Option.bind_some, is.table]
  | fires name fd single => exact .inr (.inr (cancelEvent_keeps h due shows single))
  | firesAll name fd => exact .inr (.inr (cancelAll_keeps h due shows))

end Station

end Fibers.Script
