import Fibers.Proofs.Scheduler.Stopping

/-!
From a stop to the first turn of the run loop. The stop resumes the root fiber of the scheduler,
which makes the idle fiber and enters the run loop. A thread that has used no fibers so far gets its
main fiber on the way.
-/

namespace Fibers

namespace FiberTable

variable {β : Type} {t : FiberTable β} {current : Option FiberId} {id : FiberId}
  {links : List FiberId} {r : FiberRecord β}

theorem Orderly.get?_seen (h : t.Orderly current links) (found : t.get? id = some r) :
    (t.seen current).get? id = some r := by
  cases current with
  | some c => exact found
  | none =>
    have standing : t.standing id = some r.standing := by
      rw [FiberTable.standing, found]
      rfl
    have old : id ≠ ⟨t.lastId + 1⟩ := by
      rintro rfl
      exact Nat.not_succ_le_self _ (h.numbered standing)
    exact (Table.get?_put_other _ _ old).trans found

/-- A resume is as if the thread had had its main fiber before. -/
theorem Orderly.resume_seen (h : t.Orderly current links) (found : t.get? id = some r)
    (hasScheduler : Bool) :
    t.resume current id hasScheduler =
      (t.seen current).resume (some (t.runner current)) id hasScheduler := by
  cases current with
  | some c => rfl
  | none =>
    have fault : (t.seen none).resumeFault? id hasScheduler = t.resumeFault? id hasScheduler := by
      simp only [resumeFault?, h.get?_seen found, found]
    have other : ¬some (t.runner none) = some id := by
      intro e
      have standing : t.standing id = some r.standing := by
        rw [FiberTable.standing, found]
        rfl
      have old := h.numbered standing
      rw [← Option.some.inj e] at old
      exact Nat.not_succ_le_self _ old
    unfold resume
    rw [fault, if_neg other, if_neg (Option.some_ne_none id).symm]
    rfl

end FiberTable

namespace Script

variable {c : Site} {v : View} {x : Cell} {cells : List Cell} {chain : List FiberId}

/-- The view once the thread has its main fiber. -/
def View.seated (v : View) : View :=
  { v with
    fibers := v.fibers.seen v.current
    current := some (v.fibers.runner v.current) }

theorem Ground.seated (h : Ground v chain cells) (idle : ∀ x ∈ cells, x.state ≠ .exec) :
    ∃ entry, Floor v.seated (v.fibers.runner v.current) chain
      (⟨v.fibers.runner v.current, .exec, entry, 0, none⟩ :: cells) := by
  have order := h.order.seen
  obtain ⟨s, standing, exec, _⟩ := order.running
  obtain ⟨r, found, rfl⟩ := FiberTable.get?_of_standing standing
  have holds : ∀ x ∈ cells, x.Holds v.seated := by
    intro x mem
    obtain ⟨⟨q, known, rest⟩, frames⟩ := h.holds x mem
    exact ⟨⟨q, h.order.get?_seen known, rest⟩, frames⟩
  refine ⟨r.entry, rfl, order, fun x mem => ?_, List.nodup_cons.mpr ⟨fun mem => ?_, h.distinct⟩⟩
  · rcases List.mem_cons.mp mem with rfl | mem
    · exact ⟨⟨r, found, exec, rfl, Nat.zero_le _⟩, nofun⟩
    · exact holds x mem
  · obtain ⟨x, member, same⟩ := List.mem_map.mp mem
    obtain ⟨⟨q, known, state, _⟩, _⟩ := holds x member
    have known : (v.fibers.seen v.current).get? x.id = some q := known
    rw [same, found] at known
    obtain rfl := Option.some.inj known
    exact idle x member (state.symm.trans exec)

/-- A fiber that has not begun is resumed. -/
theorem Ground.entered {b : FiberId} {eb : Option Body} {n : Nat} {fs : List Frame}
    (h : Ground v chain (⟨b, .init, eb, n, some fs⟩ :: cells))
    (idle : ∀ x ∈ cells, x.state ≠ .exec) :
    ∃ t a entry, v.fibers.resume v.current b true = .ok t ∧ t.told = none ∧
      Floor (v.followed t) b (a :: chain)
        (⟨a, .hold, entry, 0, some v.frames⟩ :: ⟨b, .exec, eb, n, none⟩ :: cells) ∧
      (v.followed t).frames = fs := by
  obtain ⟨entry, floor⟩ := h.seated (List.forall_mem_cons.mpr ⟨nofun, idle⟩)
  obtain ⟨t, ok, told, floor, frames⟩ := floor.entered (.inl rfl)
  obtain ⟨⟨r, found, _⟩, _⟩ := h.holds _ List.mem_cons_self
  exact ⟨t, _, entry, (h.order.resume_seen found true).trans ok, told, floor, frames⟩

variable {u : View} {s : Signal} {usable : Nat}

theorem Does.isStopping {f : Bool → Act Signal} (h : Does c v (f v.shared.isDone) s u) :
    Does c v (isStopping c.scheduler >>= f) s u := by
  refine Does.bind (a := v.shared.isDone) (Does.get fun w shows => ?_) h
  rw [shows.isStopping]
  exact .pure _

/-- The view after a stop was asked for. -/
def View.stopped (v : View) : View := { v with shared := v.shared.askStop.beginStop }

/-- The scheduler has no worker but the thread that stops it, and its root fiber has not begun or
has ended. -/
theorem Shows.callerOnly {w : World} {x : SchedulerRecord} (h : Shows c v w)
    (is : c.IsRecord v.shared v.handles x) (one : c.config.threads = 1)
    (root : v.fibers.state c.root = .init ∨ v.fibers.state c.root = .term) :
    w.callerOnly x = true := by
  unfold World.callerOnly
  rw [is.root]
  dsimp only
  rw [is.config, one, h.fibers]
  rcases root with root | root <;> rw [root] <;> rfl

theorem tickleTimes_does (n : Nat) : Does c v (tickleTimes c.scheduler n) () v := by
  induction n with
  | zero => exact .pure ()
  | succ n ih => exact tickle_does.bind ih

/-- The first part of a stop, up to the question whether there is anything to do. -/
theorem stop_does (one : c.config.threads = 1)
    (root : v.fibers.state c.root = .init ∨ v.fibers.state c.root = .term)
    (h : v.stopped.shared.isDone = true → Does c v.stopped (Pure.pure (.done .null)) s u)
    (g : v.stopped.shared.isDone = false → ∀ x,
      c.IsRecord v.shared.askStop v.handles x → Does c v.stopped (stopWorkers c.scheduler x) s u) :
    Does c v (stop c.scheduler) s u := by
  refine (updateShared_does _).bind (Does.record fun x is => Does.get fun w shows => ?_)
  have only := shows.callerOnly is one root
  dsimp only
  rw [if_pos only]
  refine (Does.log _ _).bind ((updateShared_does _).bind (Does.isStopping ?_))
  cases finished : v.stopped.shared.isDone with
  | true =>
    have finished' : (Shared.beginStop (Shared.askStop v.shared)).isDone = true := finished
    rw [finished', if_pos rfl]
    exact h finished
  | false =>
    have finished' : (Shared.beginStop (Shared.askStop v.shared)).isDone = false := finished
    rw [finished', if_neg Bool.false_ne_true]
    exact g finished x is

/-- The rest of a stop, up to the question whether the root fiber is resumed. -/
theorem stopWorkers_asks {x : SchedulerRecord} (has : x.root = some c.root)
    (owner : x.owner = some mainThread)
    (h : ∀ w, Shows c
        { v with
          shared := v.shared.beginStop
          frames := .stopJoin c.scheduler :: v.frames } w →
      Does c { v with shared := v.shared.beginStop, frames := .stopJoin c.scheduler :: v.frames }
        (if (w.fibers.state c.root).isResumable && !w.isStopping c.scheduler then do
          retain (.fiber c.root)
          push (.release [.fiber c.root])
          resume c.root
        else return .done .null) s u) :
    Does c v (stopWorkers c.scheduler x) s u := by
  refine Does.get fun w shows => ?_
  have mine : w.stopFault? c.scheduler x = none := by
    rw [World.stopFault?, owner]
    dsimp only
    rw [if_pos shows.running.symm]
  dsimp only
  rw [mine]
  refine (updateShared_does _).bind ((tickleTimes_does _).bind ((push_does _).bind ?_))
  rw [has]
  exact Does.get h

/-- The rest of a stop, up to the resume of the root fiber. -/
theorem stopWorkers_does {x : SchedulerRecord} (has : x.root = some c.root)
    (owner : x.owner = some mainThread) (root : v.fibers.state c.root = .init)
    (waits : v.shared.beginStop.isDone = false) {t : FiberTable.Transfer Body}
    (ok : (v.fibers.retain c.root).resume v.current c.root true = .ok t) :
    Does c v (stopWorkers c.scheduler x) (toldSignal t.told)
      (View.followed
        { v with
          fibers := v.fibers.retain c.root
          shared := v.shared.beginStop
          frames := .release [.fiber c.root] :: .stopJoin c.scheduler :: v.frames } t) := by
  refine stopWorkers_asks has owner fun w shows => ?_
  have enters : ((w.fibers.state c.root).isResumable && !w.isStopping c.scheduler) = true := by
    have resumable : (w.fibers.state c.root).isResumable = true := by
      rw [shows.fibers, root]
      rfl
    have goes : w.isStopping c.scheduler = false := shows.isStopping.trans waits
    rw [resumable, goes]
    rfl
  rw [if_pos enters]
  exact (retain_fiber_does _).bind ((push_does _).bind (resume_does ok))

/-- The root fiber makes its idle fiber and enters the run loop. -/
theorem startRoot_does (mappable : Mappable c.config.stackSize usable)
    (room : c.config.pool * 8 < rowLimit) :
    Does c v (startBody (.root c.scheduler)) (.done .null)
      { v.withFiber (.idle c.scheduler) usable true with
        handles := v.handles + 1
        frames := .loop (c.loop ⟨v.fibers.lastId + 1⟩ []) ::
          .release [.scheduler c.scheduler] :: v.frames } := by
  refine Does.get fun w shows => ?_
  have alive : ¬(!w.schedulers.contains c.scheduler) = true := by
    obtain ⟨x, found, _⟩ := shows.record
    rw [Table.contains, found]
    exact Bool.false_ne_true
  rw [if_neg alive]
  refine retain_scheduler_does.bind ((push_does _).bind ?_)
  refine Does.bind (updateThread_does fun _ is => { is with scheduler := rfl })
    (Does.record fun x is => ?_)
  rw [is.config]
  refine (Does.log _ _).bind ((makeFiber_does mappable _ _).bind ?_)
  exact (push_does _).bind ((allocate_does room).bind (.pure _))

variable {caller : FiberId} {entry : Option Body} {outer : List Frame} {items : List Item}

/-- The root fiber from its beginning to the first turn of its run loop. -/
theorem root_begins (mappable : Mappable c.config.stackSize usable)
    (room : c.config.pool * 8 < rowLimit) (frames : v.frames = [.fiberStart c.root])
    (signal : v.signal = .done .null)
    (floor : Floor v c.root (caller :: chain)
      (⟨caller, .hold, entry, 0, some outer⟩ ::
        ⟨c.root, .exec, some (.root c.scheduler), 2, none⟩ :: items.flatMap Item.stock))
    (queue : v.shared.queue = items.map Item.entry) (active : v.shared.active = 0)
    (stopping : v.shared.stopping = true) (autoStop : v.shared.autoStop = true)
    (fits : ∀ i ∈ items, i.Fits c) :
    ∃ idle v', Runs c v v' ∧
      Between c (caller :: chain) c.under (c.bottom caller idle entry outer) idle
        (items.flatMap Item.family) [] [] items v' ∧
      v'.handles = v.handles + 1 ∧ v'.reports = v.reports := by
  obtain ⟨body, floor⟩ := (floor.perm (List.Perm.swap ..)).begun
  let begun : View :=
    { v with fibers := (v.fibers.takeEntry c.root).1, frames := [.fiberBody c.root] }
  let idle : FiberId := ⟨begun.fibers.lastId + 1⟩
  let v' : View :=
    { begun.withFiber (.idle c.scheduler) usable true with
      handles := v.handles + 1
      frames := .loop (c.loop idle []) :: c.under
      signal := .done .null }
  have runs : Runs c v v' := by
    have goes : proceedWith (.fiberStart c.root) v.signal = startFiber c.root := by
      rw [signal]
      rfl
    have does := startFiber_does (v := { v with frames := [] }) body
      (startRoot_does (v := begun) mappable room)
    exact .of_act frames goes does
  have floor : Floor begun c.root (caller :: chain) _ := floor.congr rfl rfl rfl
  have floor := floor.created (.idle c.scheduler) usable true
  refine ⟨idle, v', runs, ⟨?_, rfl, ⟨_, rfl⟩, queue, active, stopping, autoStop, fits, nofun,
    nofun, fun _ mem => .inr mem⟩, rfl, rfl⟩
  refine (floor.perm ?_).congr rfl rfl rfl
  refine (List.Perm.swap ..).trans (List.Perm.cons _ ?_)
  refine (List.Perm.swap ..).trans ?_
  have behind : (c.bottom caller idle entry outer ++ items.flatMap Item.stock).Perm
      (items.flatMap Item.stock ++ c.bottom caller idle entry outer) := List.perm_append_comm
  exact behind

end Script

end Fibers
