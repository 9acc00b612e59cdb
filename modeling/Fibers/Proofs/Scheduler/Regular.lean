import Fibers.Proofs.Scheduler.Holding

/-!
Pins and the number of workers. An entry is pinned to an index, which should be that of a worker.
The queue does not ask: whoever appends an entry has to see to it. `World.Regular` says of a world
that each entry of each queue is free or pinned to a worker, unless it was queued by a fiber that
switched to a scheduler and named some other index; and that the frames of all stacks run steps of
the program, so that such an index is one that the program names.
-/

namespace Fibers.Script

/-- The action that a step performs. -/
def Step.action? : Step → Option Action
  | .perform _ a | .uncaught _ a | .require a => some a
  | .panic _ => none

/-- A block of the program has the step. -/
def Program.Has (p : Program) (step : Step) : Prop := ∃ i, step ∈ p.block i

/-- The program switches to a scheduler and to the index `k`. -/
def Program.SwitchesTo (p : Program) (k : Nat) : Prop :=
  ∃ step name, p.Has step ∧ step.action? = some (.scheduler (.switchTo name (some k)))

/-- The program has the steps of the frame. -/
def Frame.IsOf (p : Program) : Frame → Prop
  | .steps rest _ => ∀ step ∈ rest, p.Has step
  | _ => True

/-- One of `n` workers may take the entry, unless it is a fiber that switched to another index. -/
def Fits (p : Program) (n : Nat) (e : QueueEntry Body) : Prop :=
  ∀ k, e.worker = some k → k < n ∨ p.SwitchesTo k ∧ ∃ id, e.task = .fiber id

structure World.Regular (p : Program) (w : World) : Prop where
  program : w.program = p
  frames : ∀ i t, w.threads.get? i = some t → ∀ f ∈ t.frames, f.IsOf p
  saved : ∀ id fs, w.saved.get? id = some fs → ∀ f ∈ fs, f.IsOf p
  queued : ∀ s x, w.schedulers.get? s = some x →
    ∀ e ∈ x.shared.queue, Fits p x.config.threads e
  workers : ∀ s x, w.schedulers.get? s = some x → 0 < x.config.threads

variable {p : Program} {w w' : World}

theorem Fits.free {n : Nat} (t : Task Body) : Fits p n ⟨t, none⟩ := nofun

namespace World.Regular

theorem of_same (h : w.Regular p) (program : w'.program = w.program)
    (threads : w'.threads = w.threads) (saved : w'.saved = w.saved)
    (schedulers : w'.schedulers = w.schedulers) : w'.Regular p :=
  ⟨program.trans h.program, threads ▸ h.frames, saved ▸ h.saved, schedulers ▸ h.queued,
    schedulers ▸ h.workers⟩

theorem quiet (h : w.Regular p) (q : Quiet w w') : w'.Regular p := by
  obtain ⟨_, _, _, rfl, _⟩ := q
  exact h.of_same rfl rfl rfl rfl

theorem thread_frames (h : w.Regular p) : ∀ f ∈ w.thread.frames, f.IsOf p := by
  unfold World.thread
  cases found : w.threads.get? w.running with
  | none => nofun
  | some t => exact h.frames _ t found

theorem saved_frames (h : w.Regular p) (id : FiberId) :
    ∀ f ∈ (w.saved.get? id).getD [], f.IsOf p := by
  cases found : w.saved.get? id with
  | none => nofun
  | some fs => exact h.saved id fs found

/-- The thread that runs changes, and its frames are still of the program. -/
theorem modify_thread (h : w.Regular p) (i : ThreadId) {f : Thread → Thread}
    (frames : ∀ t, (∀ x ∈ t.frames, x.IsOf p) → ∀ x ∈ (f t).frames, x.IsOf p) :
    Regular p { w with threads := w.threads.modify i f } := by
  refine ⟨h.program, ?_, h.saved, h.queued, h.workers⟩
  intro j t found
  change (w.threads.modify i f).get? j = some t at found
  rw [Table.get?_modify] at found
  split at found
  · obtain ⟨t', there, rfl⟩ := Option.map_eq_some_iff.mp found
    exact frames t' (h.frames j t' there)
  · exact h.frames j t found

theorem put_thread (h : w.Regular p) (i : ThreadId) {t : Thread}
    (frames : ∀ f ∈ t.frames, f.IsOf p) :
    Regular p { w with threads := w.threads.put i t } := by
  refine ⟨h.program, ?_, h.saved, h.queued, h.workers⟩
  intro j t' found
  change (w.threads.put i t).get? j = some t' at found
  rw [Table.get?_put] at found
  split at found
  · cases found
    exact frames
  · exact h.frames j t' found

theorem put_saved (h : w.Regular p) (id : FiberId) {fs : List Frame} (frames : ∀ f ∈ fs, f.IsOf p) :
    Regular p { w with saved := w.saved.put id fs } := by
  refine ⟨h.program, h.frames, ?_, h.queued, h.workers⟩
  intro j fs' found
  change (w.saved.put id fs).get? j = some fs' at found
  rw [Table.get?_put] at found
  split at found
  · cases found
    exact frames
  · exact h.saved j fs' found

theorem erase_saved (h : w.Regular p) (id : FiberId) :
    Regular p { w with saved := w.saved.erase id } := by
  refine ⟨h.program, h.frames, ?_, h.queued, h.workers⟩
  intro j fs' found
  change (w.saved.erase id).get? j = some fs' at found
  rw [Table.get?_erase] at found
  split at found
  · cases found
  · exact h.saved j fs' found

/-- A scheduler changes, and what its queue has still fits. -/
theorem modify_scheduler (h : w.Regular p) (s : SchedulerId) {f : SchedulerRecord → SchedulerRecord}
    (config : ∀ x, (f x).config = x.config)
    (queue : ∀ x, w.schedulers.get? s = some x → ∀ e ∈ (f x).shared.queue,
      e ∈ x.shared.queue ∨ Fits p x.config.threads e) :
    Regular p { w with schedulers := w.schedulers.modify s f } := by
  have changed : ∀ j x, (w.schedulers.modify s f).get? j = some x →
      (∀ e ∈ x.shared.queue, Fits p x.config.threads e) ∧ 0 < x.config.threads := by
    intro j x found
    rw [Table.get?_modify] at found
    split at found
    · next same =>
      subst same
      obtain ⟨x', there, rfl⟩ := Option.map_eq_some_iff.mp found
      rw [config x']
      refine ⟨fun e mem => ?_, h.workers j x' there⟩
      rcases queue x' there e mem with old | fits
      · exact h.queued j x' there e old
      · exact fits
    · exact ⟨h.queued j x found, h.workers j x found⟩
  exact ⟨h.program, h.frames, h.saved, fun j x found => (changed j x found).1,
    fun j x found => (changed j x found).2⟩

theorem put_scheduler (h : w.Regular p) (s : SchedulerId) {x : SchedulerRecord}
    (empty : x.shared.queue = []) (workers : 0 < x.config.threads) :
    Regular p { w with schedulers := w.schedulers.put s x } := by
  have known : ∀ j x', (w.schedulers.put s x).get? j = some x' →
      x' = x ∨ w.schedulers.get? j = some x' := by
    intro j x' found
    rw [Table.get?_put] at found
    split at found
    · exact .inl (Option.some.inj found).symm
    · exact .inr found
  refine ⟨h.program, h.frames, h.saved, fun j x' found => ?_, fun j x' found => ?_⟩
  · rcases known j x' found with rfl | found
    · rw [empty]
      exact List.forall_mem_nil _
    · exact h.queued j x' found
  · rcases known j x' found with rfl | found
    · exact workers
    · exact h.workers j x' found

theorem erase_scheduler (h : w.Regular p) (s : SchedulerId) :
    Regular p { w with schedulers := w.schedulers.erase s } := by
  have known : ∀ j x, (w.schedulers.erase s).get? j = some x → w.schedulers.get? j = some x := by
    intro j x found
    rw [Table.get?_erase] at found
    split at found
    · cases found
    · exact found
  exact ⟨h.program, h.frames, h.saved, fun j x found => h.queued j x (known j x found),
    fun j x found => h.workers j x (known j x found)⟩

end World.Regular

/-- An effect and another one that is done if it stops. -/
theorem Act.on_tryCatch {α : Type} (x : Act α) (f : Stop → Act α) (w : World) :
    (tryCatch x f).on w =
      match x.on w with
      | (.ok a, v) => (Except.ok a, v)
      | (.error e, v) => (f e).on v := by
  simp only [Act.on, tryCatch, tryCatchThe, MonadExceptOf.tryCatch, ExceptT.tryCatch, ExceptT.run,
    ExceptT.mk, StateT.run, bind, StateT.bind]
  rcases x w with ⟨_ | _, _⟩ <;> rfl

/-- The effect leads from regular worlds to regular worlds. -/
def Act.Regularly {α : Type} (p : Program) (act : Act α) : Prop :=
  ∀ w, w.Regular p → (act.on w).2.Regular p

namespace Act.Regularly

variable {α β : Type}

@[simp] theorem pure (a : α) : (Pure.pure a : Act α).Regularly p := fun _ h => h

@[simp] theorem throw (e : Stop) : (MonadExcept.throw e : Act α).Regularly p := fun _ h => h

@[simp] theorem fail (x : Failure) : (Script.fail x : Act α).Regularly p := throw _

@[simp] theorem raise (x : Panic) : (Script.raise x : Act α).Regularly p := throw _

theorem get_bind {f : World → Act β} (hf : ∀ w, w.Regular p → (f w).Regularly p) :
    ((MonadState.get : Act World) >>= f).Regularly p := fun w h => hf w h w h

@[simp] theorem get : (MonadState.get : Act World).Regularly p := fun _ h => h

@[simp] theorem bind {x : Act α} {f : α → Act β} (hx : x.Regularly p)
    (hf : ∀ a, (f a).Regularly p) : (x >>= f).Regularly p := by
  intro w h
  have first := hx w h
  rw [on_bind]
  rcases done : x.on w with ⟨_ | a, v⟩
  all_goals rw [done] at first
  · exact first
  · exact hf a v first

/-- Nothing follows what breaks off. -/
@[simp] theorem raise_bind (x : Panic) (f : α → Act β) :
    ((Script.raise x : Act α) >>= f).Regularly p := fun _ h => h

@[simp] theorem map {x : Act α} {f : α → β} (hx : x.Regularly p) : (f <$> x).Regularly p := by
  rw [map_eq_pure_bind]
  exact bind hx fun _ => pure _

@[simp] theorem attempt {x : Act α} {f : Stop → Act α} (hx : x.Regularly p)
    (hf : ∀ e, (f e).Regularly p) : (tryCatch x f).Regularly p := by
  intro w h
  have first := hx w h
  rw [on_tryCatch]
  rcases done : x.on w with ⟨e | a, v⟩
  all_goals rw [done] at first
  · exact hf e v first
  · exact first

@[simp] theorem ite {c : Prop} [Decidable c] {x y : Act α} (hx : x.Regularly p)
    (hy : y.Regularly p) : (if c then x else y).Regularly p := by
  split
  · exact hx
  · exact hy

/-- One of two effects, of which the first is built on the other. -/
theorem either {c : Prop} [Decidable c] {x y : Act α} (hy : y.Regularly p)
    (hx : y.Regularly p → x.Regularly p) : (if c then x else y).Regularly p := ite (hx hy) hy

/-- An effect that is not always done, before one that is. -/
theorem when {c : Prop} [Decidable c] {x : Act Unit} {f : Unit → Act β} (hx : x.Regularly p)
    (hf : (f ()).Regularly p) : (if c then x >>= f else f ()).Regularly p :=
  ite (bind hx fun _ => hf) hf

theorem change {f : World → World} (hf : ∀ w, w.Regular p → (f w).Regular p) :
    (modify f : Act Unit).Regularly p := hf

/-- Program, stacks and schedulers stay as they are. -/
@[simp] theorem same {f : World → World}
    (h : ∀ w, ((f w).program, (f w).threads, (f w).saved, (f w).schedulers) =
      (w.program, w.threads, w.saved, w.schedulers)) : (modify f : Act Unit).Regularly p := by
  refine change fun w regular => ?_
  obtain ⟨program, threads, saved, schedulers⟩ := by simpa only [Prod.mk.injEq] using h w
  exact regular.of_same program threads saved schedulers

@[simp] theorem forM {xs : List α} {f : α → Act PUnit} (hf : ∀ a, (f a).Regularly p) :
    (xs.forM f).Regularly p := by
  induction xs with
  | nil => exact pure _
  | cons x xs ih => exact bind (hf x) fun _ => ih

end Act.Regularly

open Act (Regularly)

variable {α : Type}

theorem regularly_of_quiet {act : Act α} (h : ∀ w, ∃ r w', act.on w = (r, w') ∧ Quiet w w') :
    act.Regularly p := by
  intro w regular
  obtain ⟨r, w', done, quiet⟩ := h w
  rw [done]
  exact regular.quiet quiet

@[simp] theorem initLog_regular : initLog.Regularly p :=
  regularly_of_quiet fun w => ⟨_, initLog_quiet w⟩

@[simp] theorem happen_regular (e : Happening) : (happen e).Regularly p := .same fun _ => rfl

@[simp] theorem writeError_regular (text : String) : (writeError text).Regularly p :=
  regularly_of_quiet fun w => ⟨_, writeError_quiet text w⟩

@[simp] theorem sendLine_regular (l : Log.Level) (text : String) : (sendLine l text).Regularly p :=
  regularly_of_quiet fun w => ⟨_, sendLine_quiet l text w⟩

@[simp] theorem sendPiece_regular (text : String) : (sendPiece text).Regularly p := by
  refine .bind .get fun w => ?_
  split <;> simp

@[simp] theorem log_regular (l : Log.Level) (text : String) : (log l text).Regularly p :=
  regularly_of_quiet fun w => ⟨_, log_quiet l text w⟩

@[simp] theorem logError_regular (text : String) : (logError text).Regularly p := log_regular _ _

@[simp] theorem logDebug_regular (text : String) : (logDebug text).Regularly p := log_regular _ _

@[simp] theorem violate_regular (v : Violation) : (violate v : Act α).Regularly p :=
  regularly_of_quiet fun w => ⟨_, violate_quiet v w⟩

@[simp] theorem abort_regular : (abort : Act α).Regularly p := by simp [abort]

@[simp] theorem report_regular (verb label : String) (d : Datum) :
    (report verb label d).Regularly p := by simp [report]

@[simp] theorem allocate_regular (count size : Nat) : (allocate count size).Regularly p := by
  simp [allocate]

@[simp] theorem named_regular (t : Table String α) (name : String) :
    (named t name).Regularly p := by
  unfold named
  split <;> simp

@[simp] theorem thread_regular : thread.Regularly p := by simp [thread]

@[simp] theorem freshId_regular : freshId.Regularly p :=
  .bind .get fun _ => .bind (.same fun _ => rfl) fun _ => .pure _

@[simp] theorem clockAnswer_regular : clockAnswer.Regularly p := .bind .get fun _ => .pure _

@[simp] theorem kernel_regular (f : Kernel.State → Kernel.State × α) : (kernel f).Regularly p :=
  .bind .get fun _ => .bind (.same fun _ => rfl) fun _ => .pure _

@[simp] theorem kernelDo_regular (f : Kernel.State → Kernel.State) : (kernelDo f).Regularly p :=
  .same fun _ => rfl

theorem updateThread_regular {f : Thread → Thread}
    (frames : ∀ t, (∀ x ∈ t.frames, x.IsOf p) → ∀ x ∈ (f t).frames, x.IsOf p) :
    (updateThread f).Regularly p := .change fun w h => h.modify_thread w.running frames

/-- A thread keeps its frames. -/
@[simp] theorem updateThread_same_regular {f : Thread → Thread}
    (same : ∀ t, (f t).frames = t.frames) :
    (updateThread f).Regularly p := updateThread_regular fun t h => same t ▸ h

@[simp] theorem push_regular {f : Frame} (isOf : f.IsOf p) : (push f).Regularly p :=
  updateThread_regular fun _ h => List.forall_mem_cons.mpr ⟨isOf, h⟩

@[simp] theorem waitFor_regular (x : Wait) : (waitFor x).Regularly p :=
  .bind (updateThread_same_regular fun _ => rfl) fun _ => .pure _

@[simp] theorem updateScheduler_regular {s : SchedulerId} {f : SchedulerRecord → SchedulerRecord}
    (config : ∀ x, (f x).config = x.config)
    (queue : ∀ x, ∀ e ∈ (f x).shared.queue, e ∈ x.shared.queue) :
    (updateScheduler s f).Regularly p :=
  .change fun _ h => h.modify_scheduler s config fun x _ e mem => .inl (queue x e mem)

@[simp] theorem updateShared_regular {s : SchedulerId} {f : Shared Body → Shared Body}
    (queue : ∀ x, ∀ e ∈ (f x).queue, e ∈ x.queue) : (updateShared s f).Regularly p :=
  updateScheduler_regular (fun _ => rfl) fun x => queue x.shared

@[simp] theorem retain_regular (x : Handle) : (retain x).Regularly p := by
  cases x with
  | fiber id => exact .same fun _ => rfl
  | scheduler id => exact updateScheduler_regular (fun _ => rfl) fun _ _ mem => mem
  | reactor id => exact .same fun _ => rfl

@[simp] theorem retainAll_regular (hs : List Handle) : (retainAll hs).Regularly p :=
  .forM retain_regular

@[simp] theorem unmapStack_regular : unmapStack.Regularly p := by
  refine .bind (kernel_regular _) fun e => ?_
  split <;> simp

@[simp] theorem endFiber_regular (id : FiberId) (r : FiberRecord Body) :
    (endFiber id r).Regularly p := by
  refine .bind (.same fun _ => rfl) fun _ => .when (log_regular _ _) (.when unmapStack_regular ?_)
  exact .bind (.change fun w h => (h.erase_saved id).of_same rfl rfl rfl rfl) fun _ => .pure _

@[simp] theorem endScheduler_regular (id : SchedulerId) (r : SchedulerRecord) :
    (endScheduler id r).Regularly p := by
  refine .bind (.change fun w h => h.erase_scheduler id) fun _ => ?_
  exact .when (log_regular _ _) (.bind (logDebug_regular _) fun _ => .pure _)

@[simp] theorem endTimers_regular (id : Nat) : (endTimers id).Regularly p :=
  .bind .get fun _ => .bind (.same fun _ => rfl) fun _ => .pure _

@[simp] theorem endReactor_regular (id : ReactorId) (r : ReactorRecord) :
    (endReactor id r).Regularly p :=
  .when (logDebug_regular _) (.bind (.same fun _ => rfl) fun _ =>
    .bind (endTimers_regular _) fun _ => .pure _)

@[simp] theorem releaseOne_regular (x : Handle) : (releaseOne x).Regularly p := by
  refine .bind .get fun w => ?_
  cases x with
  | fiber id =>
    dsimp only
    split
    · exact .pure _
    · exact .ite (.bind (.same fun _ => rfl) fun _ => .pure _) (endFiber_regular _ _)
  | scheduler id =>
    dsimp only
    split
    · exact .pure _
    · refine .ite (.bind ?_ fun _ => .pure _) (endScheduler_regular _ _)
      exact updateScheduler_regular (fun _ => rfl) fun _ _ mem => mem
  | reactor id =>
    dsimp only
    split
    · exact .pure _
    · exact .ite (.bind (.same fun _ => rfl) fun _ => .pure _) (endReactor_regular _ _)

@[simp] theorem releaseUpTo_regular (n : Nat) (hs : List Handle) :
    (releaseUpTo n hs).Regularly p := by
  induction n generalizing hs with
  | zero => cases hs <;> exact .pure _
  | succ n ih =>
    cases hs with
    | nil => exact .pure _
    | cons x hs => exact .bind (releaseOne_regular x) fun held => ih (held ++ hs)

@[simp] theorem release_regular (hs : List Handle) : (release hs).Regularly p := by simp [release]

@[simp] theorem currentScheduler_regular : currentScheduler.Regularly p := by
  simp [currentScheduler]

@[simp] theorem schedulerRecord_regular (s : SchedulerId) : (schedulerRecord s).Regularly p := by
  simp [schedulerRecord]

@[simp] theorem schedulerName_regular (s : SchedulerId) : (schedulerName s).Regularly p := by
  simp [schedulerName]

@[simp] theorem currentOrMain_regular : currentOrMain.Regularly p :=
  .bind .get fun _ => .bind (.same fun _ => rfl) fun _ =>
    .bind (updateThread_same_regular fun _ => rfl) fun _ => .pure _

@[simp] theorem mapStack_regular (size : Nat) : (mapStack size).Regularly p := by
  refine .bind (kernel_regular _) fun r => ?_
  split <;> simp

/-- A stack that begins. -/
theorem fresh_isOf (id : FiberId) : ∀ f ∈ [Frame.fiberStart id], f.IsOf p := by
  intro f mem
  rw [List.mem_singleton.mp mem]
  trivial

@[simp] theorem makeFiber_regular (body : Body) (size : Nat) (inScheduler : Bool) :
    (makeFiber body size inScheduler).Regularly p := by
  refine .bind (mapStack_regular size) fun r => ?_
  split
  · simp
  · refine .bind .get fun w => .bind (.change fun w h => ?_) fun _ => by simp
    exact (h.put_saved _ (fresh_isOf _)).of_same rfl rfl rfl rfl

@[simp] theorem follow_regular (t : FiberTable.Transfer Body) : (follow t).Regularly p := by
  refine .get_bind fun w regular => ?_
  have frames := regular.saved_frames t.target
  refine .bind (.change fun v h => ?_) fun _ => ?_
  · exact ((h.put_saved t.source h.thread_frames).erase_saved t.target).of_same rfl rfl rfl rfl
  · exact .bind (updateThread_regular fun _ _ => frames) fun _ => .pure _

@[simp] theorem followOr_regular (t : Except Violation (FiberTable.Transfer Body)) :
    (followOr t).Regularly p := by
  cases t with
  | error v => exact violate_regular v
  | ok t => exact follow_regular t

@[simp] theorem resume_regular (id : FiberId) : (resume id).Regularly p := by simp [resume]

@[simp] theorem yieldTo_regular (s : FiberState) : (yieldTo s).Regularly p := by simp [yieldTo]

@[simp] theorem finish_regular (id : FiberId) (s : FiberState) : (finish id s).Regularly p := by
  refine .bind (push_regular trivial) fun _ => .bind .get fun w => ?_
  split <;> simp

@[simp] theorem resetFiber_regular (id : FiberId) (body : Body) :
    (resetFiber id body).Regularly p := by
  refine .bind .get fun w => ?_
  dsimp only
  split
  · simp
  · refine .bind (.change fun w h => ?_) fun _ => release_regular _
    exact (h.put_saved id (fresh_isOf id)).of_same rfl rfl rfl rfl

@[simp] theorem startBlock_regular (block : Nat) (label : String) :
    (startBlock block label).Regularly p := by
  refine .get_bind fun w h => .bind (push_regular ?_) fun _ => .pure _
  rw [h.program]
  exact fun step mem => ⟨block, mem⟩

@[simp] theorem blockOf_regular (b : BlockRef) : (blockOf b).Regularly p := by
  cases b <;> simp [blockOf]

@[simp] theorem finishPanicked_regular (id : FiberId) (x : Panic) :
    (finishPanicked id x).Regularly p := by cases x <;> simp [finishPanicked]

@[simp] theorem wakePoller_regular (epoll : Nat) (failure : String) :
    (wakePoller epoll failure).Regularly p := by
  refine .bind (kernel_regular _) fun r => ?_
  split <;> simp

@[simp] theorem tickle_regular (s : SchedulerId) : (tickle s).Regularly p := by
  refine .bind (schedulerRecord_regular s) fun r => ?_
  split
  · exact updateScheduler_regular (fun _ => rfl) fun _ _ mem => mem
  · exact updateScheduler_regular (fun _ => rfl) fun _ _ mem => mem
  · refine .bind .get fun w => ?_
    split <;> simp

@[simp] theorem tickleTimes_regular (s : SchedulerId) (n : Nat) :
    (tickleTimes s n).Regularly p := by
  induction n with
  | zero => exact .pure _
  | succ n ih => exact .bind (tickle_regular s) fun _ => ih

/-- Entries that fit are appended. -/
theorem enqueue_regular_on {s : SchedulerId} {added : List (QueueEntry Body)} (h : w.Regular p)
    (fits : ∀ e ∈ added, Fits p ((w.schedulers.get? s).getD default).config.threads e) :
    ((enqueue s added).on w).2.Regular p := by
  have pushed : (w.withEntries s added).Regular p := by
    refine h.modify_scheduler s (fun _ => rfl) fun x found e mem => ?_
    rw [found] at fits mem
    exact (List.mem_append.mp mem).imp id (fits e)
  rw [enqueue_eq]
  split
  · exact tickle_regular s _ pushed
  · exact pushed

/-- Tasks for any worker are appended. -/
@[simp] theorem enqueue_regular {s : SchedulerId} {added : List (QueueEntry Body)}
    (free : ∀ e ∈ added, e.worker = none) : (enqueue s added).Regularly p := by
  refine fun w h => enqueue_regular_on h fun e mem k pinned => ?_
  rw [free e mem] at pinned
  cases pinned

theorem mem_take_queue {x : Shared Body} {running : FiberId → Bool} {worker : Nat}
    {e : QueueEntry Body} (mem : e ∈ (x.take running worker).shared.queue) : e ∈ x.queue := by
  have rest : (x.take running worker).shared.queue =
      List.eraseP (TaskQueue.eligible running worker) x.queue :=
    (TaskQueue.scan_spec running worker false x.queue).2
  rw [rest] at mem
  exact List.mem_of_mem_eraseP mem

@[simp] theorem takeNext_regular (s : SchedulerId) (worker : Nat) :
    (takeNext s worker).Regularly p := by
  intro w h
  let taken := ((w.schedulers.get? s).getD default).shared.take w.isRunning worker
  have shrunk : World.Regular p { w with
      schedulers := w.schedulers.modify s fun r => { r with shared := taken.shared } } := by
    refine h.modify_scheduler s (fun _ => rfl) fun x found e mem => .inl ?_
    simp only [taken, found] at mem
    exact mem_take_queue mem
  rw [takeNext, Act.on_bind_get, Act.on_bind_ok (schedulerRecord_on s w),
    Act.on_bind_ok (updateShared_on s _ w)]
  have rest : (do
      if taken.wake then tickle s
      return taken.entry : Act (Option (QueueEntry Body))).Regularly p :=
    .when (tickle_regular s) (.pure _)
  exact rest _ shrunk

theorem parkAt_regular {place : Option Parking} {keep : Parking → Act Unit}
    (kept : ∀ x, (keep x).Regularly p) (wait : Wait) : (parkAt place keep wait).Regularly p := by
  unfold parkAt
  split
  · exact .bind (kept _) fun _ => .pure _
  · exact .bind .get fun _ => .ite (waitFor_regular _) (.pure _)

@[simp] theorem deadline_regular (d : Option Duration) : (deadline d).Regularly p := by
  simp [deadline]

@[simp] theorem parkWorker_regular (s : SchedulerId) (d : Duration) :
    (parkWorker s d).Regularly p := by
  refine .bind (deadline_regular _) fun _ => .bind (schedulerRecord_regular s) fun r => ?_
  split
  · refine parkAt_regular (fun x => ?_) _
    exact updateScheduler_regular (fun _ => rfl) fun _ _ mem => mem
  · exact .pure _

@[simp] theorem isStopping_regular (s : SchedulerId) : (isStopping s).Regularly p := by
  simp [isStopping]

@[simp] theorem idleParking_regular (s : SchedulerId) : (idleParking s).Regularly p := by
  refine .bind (isStopping_regular s) fun _ => .ite (.pure _) ?_
  exact .bind (push_regular trivial) fun _ => .bind (schedulerRecord_regular s) fun _ =>
    parkWorker_regular _ _

@[simp] theorem idleParked_regular (s : SchedulerId) : (idleParked s).Regularly p :=
  .bind (push_regular trivial) fun _ => yieldTo_regular _

@[simp] theorem idleScripts_regular (s : SchedulerId) (label : String) (blocks : List Nat) :
    (idleScripts s label blocks).Regularly p := by
  cases blocks with
  | nil => exact .bind (push_regular trivial) fun _ => .pure _
  | cons block rest => exact .bind (push_regular trivial) fun _ => startBlock_regular _ _

@[simp] theorem idleScriptDone_regular (s : SchedulerId) (label : String) (rest : List Nat) :
    (idleScriptDone s label rest).Regularly p :=
  .bind (push_regular trivial) fun _ => yieldTo_regular _

@[simp] theorem idleRounds_regular (s : SchedulerId) (label : String) (n : Nat) :
    (idleRounds s label n).Regularly p := by
  cases n with
  | zero => exact .bind (report_regular _ _ _) fun _ => .pure _
  | succ n =>
    exact .bind (isStopping_regular s) fun _ => .ite (.pure _)
      (.bind (push_regular trivial) fun _ => yieldTo_regular _)

@[simp] theorem pollNow_regular (epoll : Nat) (millis : Int) :
    (pollNow epoll millis).Regularly p := by
  refine .bind (kernel_regular _) fun reports => ?_
  split
  · exact .pure _
  · exact .bind (kernelDo_regular _) fun _ => .bind (kernel_regular _) fun _ => .pure _

@[simp] theorem poll_regular (epoll : Nat) (timeout : Option Duration) :
    (poll epoll timeout).Regularly p := by
  refine .bind .get fun w => .bind (allocate_regular _ _) fun _ => ?_
  refine .bind (kernel_regular _) fun e => ?_
  split
  · exact .bind (kernelDo_regular _) fun _ => .pure _
  · refine .bind (pollNow_regular _ _) fun found => ?_
    split
    · exact .pure _
    · refine .bind .get fun w => .ite (.bind (deadline_regular _) fun _ => waitFor_regular _) ?_
      exact .bind (.same fun _ => rfl) fun _ => .bind (kernelDo_regular _) fun _ => .pure _

@[simp] theorem onTable_regular (r : ReactorId)
    (f : Reactor.Poller Kernel.State → Kernel.State → Reactor.FdTable Handler →
      Kernel.State × Reactor.FdTable Handler × α) : (onTable r f).Regularly p :=
  .bind .get fun _ => .bind (.same fun _ => rfl) fun _ => .pure _

@[simp] theorem fireAll_regular (hs : List Handler) : (fireAll hs).Regularly p :=
  .forM fun _ => .bind (enqueue_regular (by simp)) fun _ => release_regular _

@[simp] theorem dispatch_regular (r : ReactorId) (found : List (Int × Event)) :
    (dispatch r found).Regularly p := by
  refine .forM fun e => .bind (onTable_regular _ _) fun d => ?_
  split <;> simp

@[simp] theorem onTimers_regular (id : Nat) (f : Timers TimerBody → Timers TimerBody × α) :
    (onTimers id f).Regularly p :=
  .bind .get fun _ => .bind (.same fun _ => rfl) fun _ => .pure _

@[simp] theorem expire_regular (id : Nat) : (expire id).Regularly p := by
  refine .bind .get fun w => .bind (onTimers_regular _ _) fun r => ?_
  split
  · exact .bind (release_regular _) fun _ => .raise _
  · exact .when (log_regular _ _) (.pure _)

@[simp] theorem idleReactor_regular (s : SchedulerId) (r : ReactorId) :
    (idleReactor s r).Regularly p := by
  refine .bind (isStopping_regular s) fun _ => .ite ?_ ?_
  · exact .bind (schedulerName_regular s) fun _ => .bind (logDebug_regular _) fun _ =>
      .bind (tickle_regular s) fun _ => .pure _
  · exact .bind .get fun _ => .bind (onTimers_regular _ _) fun _ =>
      .bind (push_regular trivial) fun _ => .bind (push_regular trivial) fun _ => poll_regular _ _

@[simp] theorem idlePoll_regular (r : ReactorId) (timeout : Duration)
    (res : Except OsError (List (Int × Event))) : (idlePoll r timeout res).Regularly p := by
  cases res with
  | ok found => exact .pure _
  | error e =>
    refine .ite ?_ (.bind (logError_regular _) fun _ => .pure _)
    exact .bind (push_regular trivial) fun _ => .bind .get fun _ => poll_regular _ _

@[simp] theorem idlePolled_regular (s : SchedulerId) (r : ReactorId) (found : List (Int × Event)) :
    (idlePolled s r found).Regularly p := by
  refine .bind .get fun w => .bind (expire_regular _) fun callbacks => ?_
  have rest : (do
      dispatch r found
      push (.idleReactor s r)
      yieldTo .hold).Regularly p :=
    .bind (dispatch_regular r found) fun _ => .bind (push_regular trivial) fun _ =>
      yieldTo_regular _
  refine .ite (.bind (log_regular _ _) fun _ => .bind (enqueue_regular ?_) fun _ => rest) rest
  intro e mem
  obtain ⟨b, -, rfl⟩ := List.mem_map.mp mem
  rfl

@[simp] theorem startIdle_regular (s : SchedulerId) : (startIdle s).Regularly p := by
  refine .bind .get fun w => .ite (.pure _) ?_
  refine .bind (schedulerRecord_regular s) fun r => .bind (retainAll_regular _) fun _ =>
    .bind (push_regular trivial) fun _ => ?_
  split
  · exact .bind (push_regular trivial) fun _ => .pure _
  · exact .bind (push_regular trivial) fun _ => .pure _
  · exact .bind (push_regular trivial) fun _ => .bind .get fun _ =>
      .bind (allocate_regular _ _) fun _ => .pure _

@[simp] theorem startTimer_regular (b : TimerBody) : (startTimer b).Regularly p := by
  cases b with
  | script block label => exact startBlock_regular _ _
  | guarded object block label =>
    exact .bind .get fun _ => .ite (startBlock_regular _ _) (.pure _)
  | wake s f =>
    exact .bind (retain_regular _) fun _ => .bind (enqueue_regular (by simp)) fun _ => .pure _

@[simp] theorem startWorker_regular (s : SchedulerId) (worker : Nat) :
    (startWorker s worker).Regularly p := by
  refine .bind (updateThread_same_regular fun _ => rfl) fun _ => .bind (schedulerRecord_regular s)
    fun r => .bind (logDebug_regular _) fun _ => .bind (makeFiber_regular _ _ _) fun made => ?_
  split
  · exact .bind (logError_regular _) fun _ => .pure _
  · exact .bind (push_regular trivial) fun _ => .bind (allocate_regular _ _) fun _ => .pure _

@[simp] theorem startBody_regular (b : Body) : (startBody b).Regularly p := by
  cases b with
  | script block label => exact startBlock_regular _ _
  | timer b => exact .bind (push_regular trivial) fun _ => startTimer_regular b
  | root s =>
    refine .bind .get fun w => .ite (.pure _) ?_
    exact .bind (retain_regular _) fun _ => .bind (push_regular trivial) fun _ =>
      startWorker_regular _ _
  | idle s => exact startIdle_regular s

@[simp] theorem settle_regular (s : SchedulerId) : (settle s).Regularly p :=
  updateShared_regular fun _ _ mem => mem

@[simp] theorem turn_regular (l : Loop) : (turn l).Regularly p := by
  refine .bind (takeNext_regular _ _) fun e => ?_
  split
  · refine .bind .get fun w => .ite (.bind (logDebug_regular _) fun _ =>
      .bind (release_regular _) fun _ => .pure _) ?_
    exact .bind (updateShared_regular fun _ _ mem => mem) fun _ =>
      .bind (push_regular trivial) fun _ => resume_regular _
  · split
    · refine .bind .get fun w => .ite (.bind (push_regular trivial) fun _ => resume_regular _) ?_
      exact .bind (logDebug_regular _) fun _ => .bind (settle_regular _) fun _ =>
        .bind (release_regular _) fun _ => .bind (push_regular trivial) fun _ => .pure _
    · unfold turnCallback
      split
      · exact .bind (push_regular trivial) fun _ => .bind (resetFiber_regular _ _) fun _ =>
          resume_regular _
      · refine .bind (schedulerRecord_regular _) fun r => ?_
        refine .bind (makeFiber_regular _ _ _) fun made => ?_
        split
        · exact .bind (push_regular trivial) fun _ => resume_regular _
        · exact .bind (logError_regular _) fun _ => .bind (settle_regular _) fun _ =>
            .bind (push_regular trivial) fun _ => .pure _

@[simp] theorem endTurn_regular (l : Loop) (id : FiberId) (a : Aftermath) :
    (endTurn l id a).Regularly p := by
  cases a with
  | requeue =>
    exact .bind (enqueue_regular (by simp)) fun _ => .bind (settle_regular _) fun _ =>
      .bind (push_regular trivial) fun _ => .pure _
  | recycle =>
    exact .bind (settle_regular _) fun _ => .bind (push_regular trivial) fun _ => .pure _
  | dismiss =>
    exact .bind (settle_regular _) fun _ => .bind (release_regular _) fun _ =>
      .bind (push_regular trivial) fun _ => .pure _

@[simp] theorem turnedFiber_regular (l : Loop) (id : FiberId) (left : FiberState) :
    (turnedFiber l id left).Regularly p := .when (log_regular _ _) (endTurn_regular _ _ _)

@[simp] theorem turnedCallback_regular (l : Loop) (id : FiberId) (left : FiberState) :
    (turnedCallback l id left).Regularly p :=
  .bind (schedulerRecord_regular _) fun _ => endTurn_regular _ _ _

@[simp] theorem turnedIdle_regular (l : Loop) : (turnedIdle l).Regularly p :=
  .bind (updateShared_regular fun _ _ mem => mem) fun _ => .bind (push_regular trivial) fun _ =>
    .pure _

end Fibers.Script
