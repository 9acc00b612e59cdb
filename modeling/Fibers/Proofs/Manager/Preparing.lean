import Fibers.Proofs.Manager.Closing

/-!
The script on the main stack before the first stop of its manager. It makes fibers, queues tasks,
arms timers and enters handlers; it may let time pass. The root fiber has not begun. The stop then
returns at once, if there is nothing to do, or resumes the root fiber.
-/

namespace Fibers.Script

/-- What a script on a main stack has still to do. -/
def scriptFrames (blocks : List (List Step × String)) : List Frame :=
  blocks.map fun b => .steps b.1 b.2

/-- What is left of a script once some steps of a block are done. -/
theorem scriptFrames_after (label : String) (steps : List Step)
    (blocks : List (List Step × String)) :
    ∃ blocks', stepFrames label steps ++ scriptFrames blocks = scriptFrames blocks' := by
  cases steps with
  | nil => exact ⟨blocks, rfl⟩
  | cons step steps => exact ⟨(step :: steps, label) :: blocks, rfl⟩

/-- What the thread of a script does: its frames, the signal for them and what it waits for. -/
inductive Scripting : List Frame → Signal → Option Wait → Prop where
  | works (blocks : List (List Step × String)) (d : Datum) :
    Scripting (scriptFrames blocks) (.done d) none
  | reports (verb label : String) (blocks : List (List Step × String)) (s : Signal) :
    Scripting (.report verb label :: scriptFrames blocks) s none
  | answers (verb label : String) (blocks : List (List Step × String)) (d : Datum) :
    Scripting (.answerClock :: .report verb label :: scriptFrames blocks) (.done d) none
  | waits (verb label : String) (blocks : List (List Step × String)) (d : Datum) (t : Instant) :
    Scripting (.answerClock :: .report verb label :: scriptFrames blocks) (.done d)
      (some (.moment t))

/-- A script that comes to some steps neither waits nor is told of a failure. -/
theorem Scripting.of_steps {fs base : List Frame} {s : Signal} {wait : Option Wait}
    (h : Scripting fs s wait) {steps : List Step} {label : String}
    (frames : fs = .steps steps label :: base) : (∃ d, s = .done d) ∧ wait = none := by
  cases h with
  | works blocks d => exact ⟨⟨d, rfl⟩, rfl⟩
  | reports => cases frames
  | answers => cases frames
  | waits => cases frames

namespace Station

/-- The root fiber before the first stop. -/
def freshRoot (p : Station) : Cell :=
  ⟨p.root, .init, some (.root p.scheduler), 1, some [.fiberStart p.root]⟩

/-- The script on the main stack is at work, and the manager was not stopped yet. -/
structure Prepares (p : Station) (b : Books) (c : Scene) : Prop where
  stock : Stock p b c
  known : b.known = [p.freshRoot]
  chain : b.chain = []
  hand : b.hand = []
  risen : b.risen = []
  due : b.due = 1
  lent : b.lent = 1
  spare : ∀ id, b.spare id = 0
  active : c.shared.active = 0
  script : Scripting c.frames c.signal c.wait

/-- The script is at work, after a history. -/
def Prepared (p : Station) (notes : List Note) (c : Scene) : Prop :=
  ∃ b, p.Prepares b c ∧ b.notes = notes

variable {p : Station} {b : Books} {c u : Scene} {w w' : World} {d : Datum} {s : Signal}
  {verb label name : String} {fs : List Frame} {wait : Option Wait} {a : Action} {steps : List Step}
  {blocks : List (List Step × String)} {usable : Nat}

/-- Frames, signals, reports and waits do not matter to the work. -/
theorem Prepares.turned (h : p.Prepares b c) (script : Scripting fs s wait)
    (reports : List (String × Datum)) :
    p.Prepares b { c with frames := fs, signal := s, wait := wait, reports := reports } :=
  { h with
    stock := ⟨h.stock.toStore.refit ⟨rfl, rfl, rfl, rfl, rfl, rfl⟩ ⟨rfl, rfl, rfl, rfl⟩
      (Nat.le_refl _) (Nat.le_refl _), h.stock.ground.congr rfl rfl rfl, h.stock.seniors⟩
    script := script }

/-- The books go on after an action. -/
theorem Prepares.kept {notes : List Note} (h : p.Prepares b c) (keeps : p.Keeps b c notes u)
    (script : Scripting u.frames s wait) :
    p.Prepared (notes ++ b.notes) { u with signal := s, wait := wait } := by
  obtain ⟨calm, b', stock, stays, same⟩ := keeps
  have prepares : p.Prepares b' { u with signal := s, wait := wait } := {
    stock := ⟨stock.toStore.refit ⟨rfl, rfl, rfl, rfl, rfl, rfl⟩ ⟨rfl, rfl, rfl, rfl⟩
      (Nat.le_refl _) (Nat.le_refl _), stock.ground.congr rfl rfl rfl, stock.seniors⟩
    known := stays.known.trans h.known
    chain := stays.chain.trans h.chain
    hand := stays.hand.trans h.hand
    risen := stays.risen.trans h.risen
    due := stays.due.trans h.due
    lent := stays.lent.trans h.lent
    spare := stays.spare h.spare
    active := calm.active.trans h.active
    script := script }
  exact ⟨b', prepares, same⟩

theorem Prepares.order (h : p.Prepares b c) : c.fibers.Orderly c.current [] := by
  have order := h.stock.ground.order
  rw [h.chain] at order
  exact order

/-- The script runs on the stack of the thread itself. -/
theorem Depicts.outside_fibers (shows : p.Depicts c w) (order : c.fibers.Orderly c.current []) :
    w.inFiber = false := by
  rw [World.inFiber, shows.fibers, shows.thread.current]
  refine Bool.eq_false_iff.mpr fun inside => ?_
  obtain ⟨_, _, _, _, bad⟩ := order.inFiber_iff.mp inside
  cases bad

/-- A thread that is in no fiber of its own cannot give way. -/
theorem yield_refused (shows : p.Depicts c w) (order : c.fibers.Orderly c.current [])
    (left : FiberState) :
    p.Ends w (yieldTo left) fun r u => u = c ∧ ∃ x, r = .error (.panic (.violation x)) := by
  obtain ⟨x, refused⟩ : ∃ x, w.fibers.yield w.thread.current left = .error x := by
    have outside : w.fibers.inFiber w.thread.current = false := shows.outside_fibers order
    unfold FiberTable.yield
    split
    · exact ⟨_, rfl⟩
    · next current =>
      rw [current] at outside
      exact ⟨_, by rw [outside, if_neg Bool.false_ne_true]⟩
  refine Ends.get ?_
  rw [refused]
  exact .violate shows ⟨rfl, x, rfl⟩

/-- A thread that uses no fiber sleeps itself. -/
theorem sleep_ends (shows : p.Depicts c w) (order : c.fibers.Orderly c.current []) (d : Duration) :
    p.Ends w (sleep d) fun r u =>
      r = .ok (.done .null) ∧ (u = c ∨ ∃ t, u = { c with wait := some (.moment t) }) := by
  obtain ⟨x, found, is⟩ := shows.scheduler
  have reactor : w.reactorOf p.scheduler = some p.reactor := by
    rw [World.reactorOf, found]
    dsimp only
    rw [is.hooks]
  refine Ends.get ?_
  rw [shows.currentScheduler]
  dsimp only
  rw [reactor]
  dsimp only
  rw [shows.outside_fibers order, if_neg Bool.false_ne_true]
  refine Ends.get ?_
  split
  · have sets : p.Does c
        (updateThread fun t => { t with wait := some (.moment (w.clock + d)) }) ()
        { c with wait := some (.moment (w.clock + d)) } :=
      updateThread_does fun _ is => { is with wait := rfl }
    exact sets.ends_bind shows fun v told => .pure told ⟨rfl, .inr ⟨_, rfl⟩⟩
  · exact ⟨c, shows.outside shows.ample _, rfl, .inl rfl⟩

/-- The wait of a thread that sleeps is over, or goes on. -/
theorem moment_step {t : Instant} (shows : p.Depicts c w) (waits : c.wait = some (.moment t))
    (round : w.round = some w') :
    p.Depicts c w' ∨ p.Depicts { c with signal := .done .null, wait := none } w' := by
  obtain ⟨clock, rfl⟩ := shows.step round
  have is := shows.thread
  have looked : (tryWait (.moment t)).run.run w =
      (.ok (if w.isPast (some t) then some (.done .null) else none), w) := by
    cases past : w.isPast (some t)
    all_goals
      change (tryWait (.moment t)).on w = _
      rw [tryWait, Act.on_bind_get, past]
      rfl
  cases past : w.isPast (some t) with
  | false =>
    have step : w.step.2 = w := by
      simp only [World.step, is.ended, is.wait, waits, looked, past, Option.isSome_none,
        Bool.false_eq_true, if_false]
    rw [step]
    exact .inl (shows.outside shows.ample clock)
  | true =>
    have step : w.step.2 =
        w.updateThread fun t => { t with wait := none, signal := .done .null } := by
      simp only [World.step, is.ended, is.wait, waits, looked, past, Option.isSome_none,
        Bool.false_eq_true, if_false, if_true]
    rw [step]
    have shown := shows.signalled (.done .null) none
    exact .inr (shown.outside shown.ample clock)

section Rounds

variable (shows : p.Depicts c w) (h : p.Prepares b c) (round : w.round = some w')
include shows h round

/-- The script comes to an action. -/
theorem script_acts (one : p.config.threads = 1) (timely : w'.Timely)
    (frames : c.frames = .steps (.perform verb a :: steps) label :: scriptFrames blocks)
    (signal : c.signal = .done d) (wait : c.wait = none) (allows : w.Allows a) :
    ∃ c', p.Depicts c' w' ∧ p.Prepared (w.notes w'.thread.signal ++ b.notes) c' := by
  obtain ⟨blocks', rest⟩ := scriptFrames_after label steps blocks
  let fs : List Frame := .report verb label :: scriptFrames blocks'
  have noted : ∀ s, w.notes s = w.actionNotes label s a := fun s => by
    rw [World.notes, shows.thread.frames, frames]
  have turned : ∀ s, p.Prepares b { c with frames := fs, signal := s } := fun s => by
    have turned := h.turned (.reports verb label blocks' s) c.reports
    rw [← wait] at turned
    exact turned
  have starts : proceedWith (.steps (.perform verb a :: steps) label) c.signal =
      startSteps label (.perform verb a :: steps) := by
    rw [signal]
    rfl
  refine goes_to p.Prepared shows wait frames round timely starts ?_
  refine startSteps_ends (shows.popped _) fun v told => ?_
  have told : p.Depicts { c with frames := fs } v := by
    rw [show stepFrames label steps ++ _ = scriptFrames blocks' from rest] at told
    exact told
  rcases allowed_keeps one (turned c.signal).stock h.hand (Nat.le_of_eq h.due.symm) shows told
    allows with rfl | ⟨d, rfl⟩ | keeps
  · refine (yield_refused told h.order .ready).mono ?_
    rintro r u ⟨rfl, x, rfl⟩
    rw [noted]
    exact .inr ⟨b, turned _, rfl⟩
  · refine (push_does .answerClock).ends_bind told fun v told => ?_
    refine (sleep_ends told h.order d).mono ?_
    rintro r u ⟨rfl, rfl | ⟨t, rfl⟩⟩
    · rw [noted]
      have slept := h.turned (.answers verb label blocks' .null) c.reports
      rw [← wait] at slept
      exact .inr ⟨b, slept, rfl⟩
    · rw [noted]
      exact .inr ⟨b, h.turned (.waits verb label blocks' .null t) c.reports, rfl⟩
  · refine keeps.mono fun r u good => good.imp_right fun keeps => ?_
    rw [noted]
    have still : u.wait = none := keeps.1.wait.trans wait
    have frames : u.frames = fs := keeps.1.frames
    have script : Scripting u.frames (ending r) none := by
      rw [frames]
      exact .reports verb label blocks' _
    have kept := (turned c.signal).kept keeps script
    rw [← still] at kept
    exact kept

/-- A round of the script. -/
theorem script_goes (one : p.config.threads = 1) (works : w.Works) (timely : w'.Timely) :
    ∃ c', p.Depicts c' w' ∧ p.Prepared (w.notes w'.thread.signal ++ b.notes) c' := by
  obtain ⟨busy, lawful⟩ := works
  have frames' : w.thread.frames = c.frames := shows.thread.frames
  have script := h.script
  generalize frames : c.frames = fs at script
  generalize signal : c.signal = s at script
  generalize wait : c.wait = x at script
  cases script with
  | works blocks d =>
    cases blocks with
    | nil => exact absurd (frames'.trans frames) busy
    | cons block blocks =>
      obtain ⟨_ | ⟨step, steps⟩, label⟩ := block
      · refine goes_quiet_to p.Prepared shows wait frames round ?_ (by rw [signal]; rfl)
          (.pure (Signal.done .null)) ⟨b, ?_, rfl⟩
        · rw [World.notes, frames', frames]
          rfl
        · have next := h.turned (.works blocks .null) c.reports
          rw [← wait] at next
          exact next
      · obtain ⟨verb, a, rfl, allows⟩ := lawful step steps label _ (frames'.trans frames)
        exact script_acts shows h round one timely frames signal wait allows
  | reports verb label blocks s =>
    obtain ⟨d, goes⟩ := report_told verb label s
    refine goes_quiet_to p.Prepared shows wait frames round ?_ (signal ▸ goes)
      ((report_does verb label d).bind (.pure (Signal.done .null))) ⟨b, ?_, rfl⟩
    · rw [World.notes, frames', frames]
    · have next := h.turned (.works blocks .null) (c.reports ++ [(verb, d)])
      rw [← wait] at next
      exact next
  | answers verb label blocks d =>
    refine goes_to p.Prepared shows wait frames round timely (by rw [signal]) ?_
    refine (clockAnswer_ends (shows.popped _)).mono ?_
    rintro _ _ ⟨rfl, d', rfl⟩
    have quiet : w.notes (ending (.ok (Signal.done d'))) = [] := by
      rw [World.notes, frames', frames]
    rw [quiet]
    have next := h.turned (.reports verb label blocks (Signal.done d')) c.reports
    rw [← wait] at next
    exact .inr ⟨b, next, rfl⟩
  | waits verb label blocks d t =>
    have quiet : w.notes w'.thread.signal = [] := by
      rw [World.notes, frames', frames]
    rw [quiet]
    rcases moment_step shows wait round with shows' | shows'
    · exact ⟨c, shows', b, h, rfl⟩
    · have next := h.turned (.answers verb label blocks .null) c.reports
      rw [← frames] at next
      exact ⟨_, shows', b, next, rfl⟩

end Rounds

end Station

end Fibers.Script
