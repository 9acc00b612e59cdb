import Fibers.Proofs.Manager.Phases

/-!
The run loop after a fiber has come back. The entry for which the fiber was resumed is accounted
for: a fiber that is ready is queued again, one that has ended is kept for another callback or let
go of, and a sleeping one is let go of, since its timer has a handle of it. After a round of the
idle fiber the loop goes on.
-/

namespace Fibers.Script

/-- What is known after a handle of a fiber was let go of. -/
theorem Floor.freed {c : Scene} {a id : FiberId} {chain : List FiberId} {cells : List Cell}
    (h : Floor (c.toView.released id) a chain cells) : Floor (c.freed id).toView a chain cells := by
  refine h.congr rfl rfl ?_
  rw [View.released_eq id c.toView c.toView rfl rfl]
  rfl

/-- What is known after one of two handles of a waiting fiber was let go of. -/
theorem Books.lightened {p : Station} {b : Books} {c : Scene} {a id : FiberId}
    {chain : List FiberId} {known : List Cell} (floor : Floor c.toView a chain (known ++ b.crew p))
    (mem : id ∈ b.fibers) (two : b.spare id = 1) :
    (∀ r, c.fibers.get? id = some r → r.entry = none ∨ 1 < r.handles) ∧
      Floor (c.freed id).toView a chain
        (known ++ crew { b with spare := Function.update b.spare id 0 } p) := by
  constructor
  · have member : (b.post id).cell p id (b.spare id + 1) ∈ known ++ b.crew p :=
      List.mem_append_right _ (List.mem_map_of_mem mem)
    obtain ⟨⟨q, found, _, _, handles⟩, _⟩ := floor.holds _ member
    rw [Posture.cell_id] at found
    rw [Posture.cell_handles, two] at handles
    intro r there
    obtain rfl := Option.some.inj (there.symm.trans found)
    exact .inr handles
  · refine Books.recrew 0 floor mem fun cells floor => ?_
    have two' : ((b.post id).cell p id (b.spare id + 1)).handles = 2 := by
      rw [Posture.cell_handles, two]
    have several : 2 ≤ ((b.post id).cell p id (b.spare id + 1)).handles := Nat.le_of_eq two'.symm
    have freed := (floor.release_several several).freed
    rw [Posture.cell_handles, Posture.cell_with, two] at freed
    rw [Posture.cell_id] at freed
    exact freed

namespace Station

variable {p : Station} {b : Books} {c u : Scene} {w w' : World} {k : Bench} {id : FiberId}
  {d : Datum} {front : Frame} {left : FiberState} {cells : List Cell} {lent : Option FiberId}

/-- What the run loop may do with a fiber that has come back. -/
theorem accounts_ends (accounts : front = .loopFiber (k.loop p) id ∨
      front = .loopCallback (k.loop p) id) (left : FiberState) :
    ∃ a, (left = .ready ∧ a = .requeue ∨ left.isTerminal = true ∧ a = .recycle ∨
        left ≠ .ready ∧ a = .dismiss) ∧
      ∀ {v s u}, p.Does v (endTurn (k.loop p) id a) s u →
        p.Does v (proceedWith front (.left left)) s u := by
  rcases accounts with rfl | rfl
  · refine ⟨.ofFiber left, ?_, fun does => ?_⟩
    · unfold Aftermath.ofFiber
      split
      · exact .inl ⟨‹_›, rfl⟩
      · exact .inr (.inr ⟨‹_›, rfl⟩)
    · change p.Does _ (turnedFiber (k.loop p) id left) _ _
      exact Does.when_bind (f := fun _ => endTurn (k.loop p) id (.ofFiber left)) (.log _ _) does
  · refine ⟨.ofCallback left (k.loop p).pool.length p.config.pool, ?_, fun does => ?_⟩
    · have full : ∀ q : Prop, [Decidable q] → left.isTerminal = true →
          left.isTerminal = true ∧ (if q then Aftermath.recycle else .dismiss) = .recycle ∨
            left ≠ .ready ∧ (if q then Aftermath.recycle else .dismiss) = .dismiss := by
        intro q _ ended
        split
        · exact .inl ⟨ended, rfl⟩
        · refine .inr ⟨?_, rfl⟩
          rintro rfl
          cases ended
      cases left with
      | ready => exact .inl ⟨rfl, rfl⟩
      | term => exact .inr (full _ rfl)
      | except => exact .inr (full _ rfl)
      | init | exec | hold => exact .inr (.inr ⟨nofun, rfl⟩)
    · change p.Does _ (turnedCallback (k.loop p) id left) _ _
      exact Does.schedulerRecord fun _ is => is.config.symm ▸ does

theorem requeue_does :
    p.Does c (endTurn (k.loop p) id .requeue) (.done .null)
      { c with
        frames := .loop (k.loop p) :: c.frames
        shared := { c.shared with
          queue := c.shared.queue ++ [⟨.fiber id, none⟩]
          active := c.shared.active - 1 } } :=
  (enqueue_does _).bind (settle_does.bind ((push_does _).bind (.pure _)))

theorem recycle_does :
    p.Does c (endTurn (k.loop p) id .recycle) (.done .null)
      { c with
        frames := .loop { k.loop p with pool := id :: (k.loop p).pool } :: c.frames
        shared := c.shared.settle } :=
  settle_does.bind ((push_does _).bind (.pure _))

theorem dismiss_does {fs : List Frame}
    (light : ∀ r, c.fibers.get? id = some r → r.entry = none ∨ 1 < r.handles) :
    p.Does { c with frames := fs } (endTurn (k.loop p) id .dismiss) (.done .null)
      { c.freed id with frames := .loop (k.loop p) :: fs, shared := c.shared.settle } := by
  let settled : Scene := { c with frames := fs, shared := c.shared.settle }
  have freed : settled.freed id = { c.freed id with frames := fs, shared := c.shared.settle } := by
    have released := View.released_eq id c.toView settled.toView rfl rfl
    rw [Scene.freed, released]
    rfl
  have free : p.Does settled (release [.fiber id]) () (settled.freed id) :=
    release_fiber_does light
  rw [freed] at free
  exact settle_does.bind (free.bind ((push_does _).bind (.pure _)))

/-- A fiber that has ended is kept for another callback, or let go of. -/
theorem ended_does {rest : List Cell} (accounts : front = .loopFiber (k.loop p) id ∨
      front = .loopCallback (k.loop p) id) (valid : k.Valid)
    (floor : Floor c.toView p.root [k.caller]
      (p.rootCell none :: ⟨id, .term, none, 1, some [.fiberEnd]⟩ :: (k.cells p ++ rest))) :
    ∃ (k' : Bench) (u : Scene), k'.Valid ∧ k' = { k with pooled := k'.pooled } ∧
      p.Does { c with frames := p.under } (proceedWith front (.left .term)) (.done .null) u ∧
      Scene.Steady { c with shared := c.shared.settle } u ∧
      u.frames = .loop (k'.loop p) :: p.under ∧
      Floor u.toView p.root [k.caller] (p.rootCell none :: (k'.cells p ++ rest)) := by
  let x : Cell := ⟨id, .term, none, 1, some [.fiberEnd]⟩
  obtain ⟨a, ends, does⟩ := accounts_ends accounts .term
  obtain ⟨bad, -⟩ | ⟨-, rfl⟩ | ⟨-, rfl⟩ := ends
  · cases bad
  · let k' : Bench := { k with pooled := x :: k.pooled }
    refine ⟨k', _, List.forall_mem_cons.mpr ⟨⟨rfl, rfl, rfl⟩, valid⟩, rfl, does recycle_does,
      ⟨rfl, rfl, rfl, rfl, rfl, rfl, rfl⟩, rfl, (floor.perm ?_).congr rfl rfl rfl⟩
    have cells : (x :: (k.cells p ++ rest)).Perm (k'.cells p ++ rest) := by
      change (x :: ([k.callerCell p, k.idleCell p] ++ (k.pooled ++ rest))).Perm _
      exact List.perm_middle.symm
    exact cells.cons _
  · have light : ∀ r, c.fibers.get? id = some r → r.entry = none ∨ 1 < r.handles := by
      obtain ⟨⟨q, found, _, entry, _⟩, _⟩ := floor.holds x (by simp [x])
      intro r known
      obtain rfl := Option.some.inj (known.symm.trans found)
      exact .inl entry
    have floor : Floor c.toView p.root [k.caller] (x :: _) := floor.perm (List.Perm.swap ..)
    exact ⟨k, _, valid, rfl, does (dismiss_does light), ⟨rfl, rfl, rfl, rfl, rfl, rfl, rfl⟩, rfl,
      (floor.released nofun nofun).freed.congr rfl rfl rfl⟩

/-- A sleeping fiber is let go of. -/
theorem sleeper_does {rest : List Cell} {fs : List Frame}
    (accounts : front = .loopFiber (k.loop p) id ∨ front = .loopCallback (k.loop p) id)
    (floor : Floor c.toView p.root [k.caller]
      (⟨id, .hold, none, 2, some fs⟩ :: p.rootCell none :: (k.cells p ++ rest))) :
    ∃ u, p.Does { c with frames := p.under } (proceedWith front (.left .hold)) (.done .null) u ∧
      Scene.Steady { c with shared := c.shared.settle } u ∧
      u.frames = .loop (k.loop p) :: p.under ∧
      Floor u.toView p.root [k.caller]
        (⟨id, .hold, none, 1, some fs⟩ :: p.rootCell none :: (k.cells p ++ rest)) := by
  obtain ⟨a, ends, does⟩ := accounts_ends accounts .hold
  obtain ⟨bad, -⟩ | ⟨bad, -⟩ | ⟨-, rfl⟩ := ends
  · cases bad
  · cases bad
  · have light : ∀ r, c.fibers.get? id = some r → r.entry = none ∨ 1 < r.handles := by
      obtain ⟨⟨q, found, _, entry, _⟩, _⟩ := floor.holds _ List.mem_cons_self
      intro r known
      obtain rfl := Option.some.inj (known.symm.trans found)
      exact .inl entry
    exact ⟨_, does (dismiss_does light), ⟨rfl, rfl, rfl, rfl, rfl, rfl, rfl⟩, rfl,
      (floor.release_several (Nat.le_refl 2)).freed.congr rfl rfl rfl⟩

section Accounting

variable (shows : p.Depicts c w)
  (accounts : front = .loopFiber (k.loop p) id ∨ front = .loopCallback (k.loop p) id)
  (frames : c.frames = front :: p.under) (signal : c.signal = .left left) (wait : c.wait = none)
  (round : w.round = some w')
include shows accounts frames signal wait round

/-- The round of an accounting is not noted. -/
theorem accounting_goes {a : Aftermath}
    (does : ∀ {v s u}, p.Does v (endTurn (k.loop p) id a) s u →
      p.Does v (proceedWith front (.left left)) s u)
    (ends : p.Does { c with frames := p.under } (endTurn (k.loop p) id a) (.done .null) u)
    (phase : Phase p k.back b.notes { u with signal := .done .null }) :
    ∃ c', p.Depicts c' w' ∧ Phase p k.back (w.notes w'.thread.signal ++ b.notes) c' := by
  refine goes_quiet shows wait frames round ?_ (by rw [signal]) (does ends) phase
  rw [World.notes, shows.thread.frames, frames]
  rcases accounts with rfl | rfl <;> rfl

end Accounting

/-- The run loop goes on with the work of a scene. -/
theorem turns (valid : k.Valid) (store : Store p b c)
    (floor : Floor c.toView p.root [k.caller] ((k.looping p [] 0).known ++ b.crew p))
    (frames : c.frames = .loop (k.loop p) :: p.under) (signal : ∃ d, c.signal = .done d)
    (wait : c.wait = none) (hand : b.hand = []) (risen : b.risen = [])
    (due : b.due = 3 + k.begun.toNat) (lent : b.lent = 1 + k.begun.toNat)
    (active : c.shared.active = 0) (stopping : c.shared.stopping = true)
    (autoStop : c.shared.autoStop = true) (spare : ∀ j, b.spare j = 0) :
    Phase p k.back b.notes c := by
  have live : Live p (k.looping p [] 0) (b.seated (k.looping p [] 0) b.spare) c := by
    refine .of_store store ⟨rfl, rfl, rfl, rfl⟩ floor
      (Bench.looping_seniors valid [] (List.forall_mem_nil _)) hand risen ?_ ?_ active stopping
      autoStop
    · rw [due]
      exact Nat.le_refl _
    · rw [lent]
      exact Nat.le_refl _
  exact .turning k rfl valid live frames signal wait spare rfl

section Left

variable (shows : p.Depicts c w) (valid : k.Valid)
  (accounts : front = .loopFiber (k.loop p) id ∨ front = .loopCallback (k.loop p) id)
  (frames : c.frames = front :: p.under) (signal : c.signal = .left left) (wait : c.wait = none)
  (round : w.round = some w')
include shows valid accounts frames signal wait round

/-- A fiber that gave way is queued again. -/
theorem requeued_goes {verb label : String} {t : Tail}
    (live : Live p
      (k.looping p [⟨id, .ready, none, 1, some (.report verb label :: t.frames id)⟩] 1) b c)
    (ready : left = .ready) (spare : ∀ j, b.spare j = 0) :
    ∃ c', p.Depicts c' w' ∧ Phase p k.back (w.notes w'.thread.signal ++ b.notes) c' := by
  obtain ⟨a, ends, does⟩ := accounts_ends accounts left
  obtain ⟨-, rfl⟩ | ⟨terminal, -⟩ | ⟨other, -⟩ := ends
  · refine accounting_goes shows accounts frames signal wait round does requeue_does ?_
    let x : Posture := .ready verb label t
    have new : id ∉ b.fibers :=
      live.new (x := ⟨id, .ready, none, 1, _⟩) (List.mem_cons_of_mem _ List.mem_cons_self)
    let c' : Scene :=
      { c with
        frames := .loop (k.loop p) :: p.under
        signal := .done .null
        shared := { c.shared with
          queue := c.shared.queue ++ [⟨.fiber id, none⟩]
          active := c.shared.active - 1 } }
    have store : Store p (b.joined id x 0 (.fiber id)) c' := by
      refine live.store.joined rfl new trivial nofun ?_ rfl live.stock.timers live.stock.recurring
        live.stock.names ?_ (Nat.le_refl _) (Nat.le_refl _)
      · refine List.perm_iff_count.mpr fun t => ?_
        simp only [Scene.tasks, c', List.map_append, List.map_cons, List.map_nil,
          List.count_append, List.count_cons, List.count_nil]
        omega
      · intro e mem
        rcases List.mem_append.mp mem with mem | mem
        · exact live.stock.pinned e mem
        · obtain rfl := List.mem_singleton.mp mem
          exact .inl rfl
    have floor : Floor c'.toView p.root [k.caller]
        ((k.looping p [] 0).known ++ (b.joined id x 0 (.fiber id)).crew p) := by
      rw [Books.joined_crew rfl new]
      exact (live.floor.perm (List.perm_middle.symm.cons _)).congr rfl rfl rfl
    have notes : (b.joined id x 0 (.fiber id)).notes = b.notes := by
      simp only [Books.joined, taskBodies, Function.update_self, x, Posture.bodies]
      rfl
    refine notes ▸ turns valid store floor rfl ⟨_, rfl⟩ wait live.hand live.risen live.due live.lent
      (congrArg (· - 1) live.active) live.stopping live.autoStop fun j => ?_
    change Function.update b.spare id 0 j = 0
    rw [Function.update_apply, spare j, ite_self]
  · rw [ready] at terminal
    cases terminal
  · exact absurd ready other

/-- A fiber that has ended is kept for another callback, or let go of. -/
theorem ended_goes (live : Live p (k.looping p [⟨id, .term, none, 1, some [.fiberEnd]⟩] 1) b c)
    (term : left = .term) (spare : ∀ j, b.spare j = 0) :
    ∃ c', p.Depicts c' w' ∧ Phase p k.back (w.notes w'.thread.signal ++ b.notes) c' := by
  subst term
  have active : c.shared.active - 1 = 0 := congrArg (· - 1) live.active
  obtain ⟨k', u, valid', same, does, steady, entered, floor⟩ :=
    ended_does accounts valid live.floor
  refine goes_quiet shows wait frames round ?_ (by rw [signal]) does ?_
  · rw [World.notes, shows.thread.frames, frames]
    rcases accounts with rfl | rfl <;> rfl
  · have store : Store p b { u with signal := .done .null } := by
      refine live.store.refit ⟨rfl, rfl, rfl, rfl, rfl, rfl⟩
        ⟨?_, steady.table, steady.timers, steady.names⟩ ?_ ?_
      · rw [steady.shared]
        rfl
      · exact Nat.add_le_add_left (Nat.le_of_eq steady.handles.symm) b.due
      · exact Nat.add_le_add_left (Nat.le_of_eq steady.held.symm) b.lent
    generalize k'.pooled = pooled at same
    subst same
    exact turns (k := { k with pooled := pooled }) valid' store (floor.congr rfl rfl rfl) entered
      ⟨_, rfl⟩ (steady.wait.trans wait) live.hand live.risen live.due live.lent
      (steady.shared ▸ active) (steady.shared ▸ live.stopping) (steady.shared ▸ live.autoStop) spare

/-- A sleeping fiber is let go of. -/
theorem sleeper_goes (live : Live p (k.looping p [] 1) b c) (hold : left = .hold)
    (spare : ∀ j, b.spare j = if id = j then 1 else 0) (mem : id ∈ b.fibers) :
    ∃ c', p.Depicts c' w' ∧ Phase p k.back (w.notes w'.thread.signal ++ b.notes) c' := by
  obtain ⟨a, ends, does⟩ := accounts_ends accounts left
  have active : c.shared.active - 1 = 0 := congrArg (· - 1) live.active
  have mine : b.spare id = 1 := (spare id).trans (if_pos rfl)
  obtain ⟨ready, -⟩ | ⟨terminal, -⟩ | ⟨-, rfl⟩ := ends
  · rw [hold] at ready
    cases ready
  · rw [hold] at terminal
    cases terminal
  · obtain ⟨light, floor⟩ := Books.lightened live.floor mem mine
    refine accounting_goes shows accounts frames signal wait round does (dismiss_does light) ?_
    let b' : Books := { b with spare := Function.update b.spare id 0 }
    have store : Store p b' { c.freed id with
        frames := .loop (k.loop p) :: p.under
        signal := .done .null
        shared := c.shared.settle } := live.store.refit
      ⟨rfl, rfl, rfl, rfl, rfl, rfl⟩ ⟨rfl, rfl, rfl, rfl⟩ (Nat.le_refl _) (Nat.le_refl _)
    refine turns (b := b') valid store (floor.congr rfl rfl rfl) rfl ⟨_, rfl⟩ wait live.hand
      live.risen live.due live.lent active live.stopping live.autoStop fun j => ?_
    change Function.update b.spare id 0 j = 0
    rw [Function.update_apply, spare j]
    split
    · rfl
    · next other => exact if_neg (Ne.symm other)

/-- The run loop goes on whatever has become of the fiber. -/
theorem left_goes (leaving : Leaving p id left cells lent)
    (live : Live p (k.looping p cells 1) b c)
    (spare : ∀ j, b.spare j = if lent = some j then 1 else 0)
    (waits : ∀ f, lent = some f → f ∈ b.fibers) :
    ∃ c', p.Depicts c' w' ∧ Phase p k.back (w.notes w'.thread.signal ++ b.notes) c' := by
  cases leaving with
  | ready verb label t =>
    exact requeued_goes shows valid accounts frames signal wait round live rfl spare
  | ended => exact ended_goes shows valid accounts frames signal wait round live rfl spare
  | asleep =>
    refine sleeper_goes shows valid accounts frames signal wait round live rfl (fun j => ?_)
      (waits id rfl)
    rw [spare j]
    simp only [Option.some.injEq]

end Left

end Station

end Fibers.Script
