import Fibers.Proofs.Effect
import Fibers.Proofs.Fiber.Operations

/-!
What making a fiber, switching stacks and the four ways of handing control over do to a world. Each
effect is described once, by the world that it leaves.
-/

namespace Fibers.Script

variable {w w' : World}

/-- The fiber on whose stack the thread is. -/
def World.runner (w : World) : FiberId := w.fibers.runner w.thread.current

/-- The thread whose turn it is exists. -/
def World.HasThread (w : World) : Prop := ∃ t, w.threads.get? w.running = some t

theorem World.HasThread.get? (h : w.HasThread) : w.threads.get? w.running = some w.thread := by
  obtain ⟨t, ht⟩ := h
  rw [World.thread, ht]
  rfl

/-- An update of the thread whose turn it is changes that thread. -/
theorem thread_of_modify (w' : World) {f : Thread → Thread} (h : w.HasThread)
    (threads : w'.threads = w.threads.modify w.running f) (running : w'.running = w.running) :
    w'.HasThread ∧ w'.thread = f w.thread := by
  have found : w'.threads.get? w'.running = some (f w.thread) := by
    rw [threads, running, Table.get?_modify, if_pos rfl, h.get?]
    rfl
  exact ⟨⟨_, found⟩, by rw [World.thread, found]; rfl⟩

/-- Nothing that concerns fibers and threads tells two worlds apart. -/
structure Untouched (w w' : World) : Prop where
  fibers : w'.fibers = w.fibers
  saved : w'.saved = w.saved
  threads : w'.threads = w.threads
  running : w'.running = w.running

theorem Untouched.thread (h : Untouched w w') : w'.thread = w.thread := by
  rw [World.thread, World.thread, h.threads, h.running]

theorem Quiet.untouched (h : Quiet w w') : Untouched w w' := by
  obtain ⟨_, _, _, rfl, _⟩ := h
  exact ⟨rfl, rfl, rfl, rfl⟩

theorem mapStack_on (size : Nat) (w : World) :
    ∃ r w', (mapStack size).on w = (.ok r, w') ∧
      Quiet { w with kernel := (w.kernel.mapStack size).1 } w' := by
  rw [mapStack, Act.on_bind_ok (kernel_on _ w)]
  split
  · exact ⟨_, _, Act.on_pure _ _, Quiet.refl _⟩
  · next e _ =>
    obtain ⟨w', logged, quiet⟩ := log_quiet .error
      s!"fiber stack allocation of {size} bytes failed: {e.render}"
      { w with kernel := (w.kernel.mapStack size).1 }
    exact ⟨_, w', by rw [logError, Act.on_bind_ok logged, Act.on_pure], quiet⟩

/-- The world in which a fiber was made. -/
def World.withFiber (w : World) (body : Body) (stack : Nat) (inScheduler : Bool) : World :=
  let (fibers, id) := w.fibers.create body stack inScheduler
  { w with fibers := fibers, saved := w.saved.put id [.fiberStart id] }

theorem Quiet.withFiber (h : Quiet w w') (body : Body) (stack : Nat) (inScheduler : Bool) :
    Quiet (w.withFiber body stack inScheduler) (w'.withFiber body stack inScheduler) := by
  obtain ⟨_, _, _, rfl, actions⟩ := h
  exact ⟨_, _, _, rfl, actions⟩

/-- A fiber finds a stack and is made, or it does not and nothing is made. -/
theorem makeFiber_on {body : Body} (held : body.handles = []) (size : Nat) (inScheduler : Bool)
    (w : World) :
    (∃ e w', (makeFiber body size inScheduler).on w = (.ok (.error e), w') ∧
      Quiet { w with kernel := (w.kernel.mapStack size).1 } w') ∨
    ∃ stack w', (makeFiber body size inScheduler).on w = (.ok (.ok ⟨w.fibers.lastId + 1⟩), w') ∧
      Quiet ({ w with kernel := (w.kernel.mapStack size).1 }.withFiber body stack inScheduler)
        w' := by
  obtain ⟨r, v, mapped, quiet⟩ := mapStack_on size w
  rw [makeFiber, Act.on_bind_ok mapped]
  cases r with
  | error e =>
    left
    refine ⟨e, v, ?_, quiet⟩
    rw [held, Act.on_bind_ok (release_nil v), Act.on_pure]
  | ok stack =>
    right
    have fibers : v.fibers = w.fibers := quiet.untouched.fibers
    obtain ⟨w', logged, quiet'⟩ := log_quiet .debug
      s!"fiber {(FiberId.mk (v.fibers.lastId + 1)).render} created"
      (v.withFiber body stack inScheduler)
    refine ⟨stack, w', ?_, (quiet.withFiber body stack inScheduler).trans quiet'⟩
    rw [Act.on_bind_get, Act.on_bind_modify, ← fibers]
    exact Act.on_bind_ok logged

/-- The thread after control was transferred, which runs the frames that it found put away. -/
def Thread.followed (thread : Thread) (t : FiberTable.Transfer Body) (frames : List Frame) :
    Thread :=
  { thread with
    frames := frames
    main := if thread.current.isNone then some t.source else thread.main
    current := some t.target }

/-- The world after control was transferred: the frames of the stack that was left are put away, and
those of the stack that was entered are taken out. -/
def World.followed (w : World) (t : FiberTable.Transfer Body) : World :=
  { w with
    fibers := t.fibers
    saved := (w.saved.put t.source w.thread.frames).erase t.target
    threads := w.threads.modify w.running fun thread =>
      thread.followed t ((w.saved.get? t.target).getD []) }

/-- What the entered stack is told. -/
def toldSignal : Option FiberState → Signal
  | some s => .left s
  | none => .done .null

theorem follow_on (t : FiberTable.Transfer Body) (w : World) :
    (follow t).on w = (.ok (toldSignal t.told), w.followed t) := by
  rw [follow, Act.on_bind_get, Act.on_bind_modify]
  cases t.told <;> rfl

theorem followed_thread (h : w.HasThread) (t : FiberTable.Transfer Body) :
    (w.followed t).HasThread ∧ (w.followed t).thread.current = some t.target ∧
      (w.followed t).thread.frames = (w.saved.get? t.target).getD [] := by
  obtain ⟨has, thread⟩ := thread_of_modify (w.followed t)
    (f := fun thread => thread.followed t ((w.saved.get? t.target).getD [])) h rfl rfl
  exact ⟨has, by rw [thread]; rfl, by rw [thread]; rfl⟩

theorem followed_runner (h : w.HasThread) (t : FiberTable.Transfer Body) :
    (w.followed t).runner = t.target := by
  rw [World.runner, (followed_thread h t).2.1]
  rfl

/-- A transfer that would violate a rule does nothing but say so. -/
theorem followOr_error (v : Violation) (w : World) :
    ∃ w', (followOr (.error v)).on w = (.error (.panic (.violation v)), w') ∧ Quiet w w' :=
  violate_quiet v w

theorem resume_on (target : FiberId) (w : World) :
    (resume target).on w =
      (followOr (w.fibers.resume w.thread.current target w.currentScheduler.isSome)).on w := by
  rw [resume, Act.on_bind_get]

theorem yieldTo_on (s : FiberState) (w : World) :
    (yieldTo s).on w = (followOr (w.fibers.yield w.thread.current s)).on w := by
  rw [yieldTo, Act.on_bind_get]

/-- The world with a frame more on the stack that runs. -/
def World.pushed (w : World) (f : Frame) : World :=
  { w with threads := w.threads.modify w.running fun t => { t with frames := f :: t.frames } }

theorem push_on (f : Frame) (w : World) : (push f).on w = (.ok (), w.pushed f) := rfl

theorem pushed_thread (h : w.HasThread) (f : Frame) :
    (w.pushed f).HasThread ∧
      (w.pushed f).thread = { w.thread with frames := f :: w.thread.frames } :=
  thread_of_modify (w.pushed f) (f := fun t => { t with frames := f :: t.frames }) h rfl rfl

/-- Leaving a fiber that has ended, when there is someone to hand control to. -/
theorem finish_on {id : FiberId} {s : FiberState} {t : FiberTable.Transfer Body}
    (ok : w.fibers.handBack id s = .ok t) :
    (finish id s).on w = (.ok (toldSignal t.told), (w.pushed .fiberEnd).followed t) := by
  have ok' : (w.pushed .fiberEnd).fibers.handBack id s = .ok t := ok
  rw [finish, Act.on_bind_ok (push_on _ w), Act.on_bind_get, ok']
  exact follow_on t _

/-- A body that panics without violating a rule ends its fiber and nothing else. -/
theorem finishPanicked_on {id : FiberId} {p : Panic} {t : FiberTable.Transfer Body}
    (lawful : ∀ v, p ≠ .violation v) (ok : w.fibers.handBack id .except = .ok t) :
    ∃ v, (finishPanicked id p).on w =
      (.ok (toldSignal t.told), (v.pushed .fiberEnd).followed t) ∧ Quiet w v := by
  obtain ⟨v, logged, quiet⟩ := log_quiet .error s!"fiber {id.render} panicked: {p.message}" w
  have ok' : v.fibers.handBack id .except = .ok t := by rw [quiet.untouched.fibers, ok]
  refine ⟨v, ?_, quiet⟩
  unfold finishPanicked
  split
  · next x => exact absurd rfl (lawful x)
  · rw [logError, Act.on_bind_ok logged, finish_on ok']

/-- The world in which a fiber got a new body. -/
def World.restarted (w : World) (id : FiberId) (body : Body) : World :=
  { w with
    fibers := w.fibers.restarted id body
    saved := w.saved.put id [.fiberStart id] }

theorem resetFiber_on {id : FiberId} {body : Body} {fibers : FiberTable Body}
    (ok : w.fibers.reset id body = .ok fibers)
    (held : ∀ r b, w.fibers.get? id = some r → r.entry = some b → b.handles = []) :
    (resetFiber id body).on w = (.ok (), w.restarted id body) := by
  have former : ((((w.fibers.get? id).bind (·.entry)).map Body.handles).getD []) = [] := by
    cases hr : w.fibers.get? id with
    | none => rfl
    | some r =>
      cases hb : r.entry with
      | none => simp [hb]
      | some b => simp [hb, held r b hr hb]
  rw [resetFiber, Act.on_bind_get, ok, Act.on_bind_modify, former, release_nil,
    (FiberTable.of_reset_ok ok).1]
  rfl

theorem resetFiber_error {id : FiberId} {body : Body} {v : Violation}
    (error : w.fibers.reset id body = .error v) (held : body.handles = []) :
    ∃ w', (resetFiber id body).on w = (.error (.panic (.violation v)), w') ∧ Quiet w w' := by
  obtain ⟨w', logged, quiet⟩ := log_quiet .error (announcement v) w
  refine ⟨w', ?_, quiet⟩
  rw [resetFiber, Act.on_bind_get, error, held]
  exact (Act.on_bind_ok logged).trans (Act.on_bind_ok (release_nil w'))

/-- The world in which a fiber's body was taken out to be run. -/
def World.entered (w : World) (id : FiberId) : World :=
  { w with fibers := (w.fibers.takeEntry id).1 }

/-- A fiber begins the block that it was made with. -/
theorem startFiber_on {id : FiberId} {block : Nat} {label : String}
    (entry : (w.fibers.takeEntry id).2 = some (.script block label)) :
    (startFiber id).on w =
      (.ok (.done .null),
        ((w.entered id).pushed (.fiberBody id)).pushed (.steps (w.program.block block) label)) := by
  rw [startFiber, Act.on_bind_get, Act.on_bind_modify, entry]
  rfl

/-- A fiber without a body ends at once. -/
theorem startFiber_empty {id : FiberId} {t : FiberTable.Transfer Body}
    (entry : (w.fibers.takeEntry id).2 = none)
    (ok : (w.entered id).fibers.handBack id .term = .ok t) :
    (startFiber id).on w =
      (.ok (toldSignal t.told), ((w.entered id).pushed .fiberEnd).followed t) := by
  rw [startFiber, Act.on_bind_get, Act.on_bind_modify, entry]
  exact finish_on ok

end Fibers.Script
