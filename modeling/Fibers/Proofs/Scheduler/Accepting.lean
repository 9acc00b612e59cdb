import Fibers.Proofs.Scheduler.Docket

/-!
Handing tasks to a scheduler: callbacks, fibers that serve no task yet, and fibers of tasks that are
on hold. Their entries come to stand at the end of the queue, each for a task at its spot.
-/

namespace Fibers.Script

variable {D D' : Docket} {w w' : World} {f : FiberId} {n : Nat}

namespace Docket

/-- A task more, whose entry stands at the end of the queue. -/
def accept (D : Docket) (c : Commission) (e : QueueEntry Body) : Docket :=
  { D with
    posts := D.posts ++ [(D.count, e)]
    tasks := Function.update D.tasks D.count ⟨c, e.worker, []⟩
    count := D.count + 1 }

/-- A task that was on hold waits in the queue again. -/
def again (D : Docket) (parked : List (Nat × FiberId)) (n : Nat) (e : QueueEntry Body) : Docket :=
  { D with posts := D.posts ++ [(n, e)], parked := parked }

end Docket

theorem Spot.ofEntry_fiber? (e : QueueEntry Body) : (Spot.ofEntry e).fiber? = e.fiber? := by
  unfold Spot.ofEntry QueueEntry.fiber?
  cases e.task <;> rfl

theorem Spot.ofEntry_held? (e : QueueEntry Body) : (Spot.ofEntry e).held? = e.fiber? := by
  unfold Spot.ofEntry QueueEntry.fiber?
  cases e.task <;> rfl

/-- The tasks that a docket numbers were accepted. -/
theorem Filed.number_lt (h : Filed D w) {p : Nat × Spot} (mem : p ∈ D.spots) : p.1 < D.count :=
  List.mem_range.mp (h.numbers.mem_iff.mp (List.mem_map_of_mem mem))

theorem Docket.spots_accept (D : Docket) (c : Commission) (e : QueueEntry Body) :
    (D.accept c e).spots.Perm ((D.count, .ofEntry e) :: D.spots) :=
  D.spots_post (p := (D.count, e)) (List.perm_append_singleton _ _)

theorem filterMap_cons_toList {α β : Type} (g : α → Option β) (a : α) (as : List α) :
    (a :: as).filterMap g = (g a).toList ++ as.filterMap g := by
  rw [List.filterMap_cons]
  cases g a <;> rfl

theorem Filed.accept (h : Filed D w) {c : Commission} {e : QueueEntry Body}
    (sound : (Spot.ofEntry e).Sound w ⟨c, e.worker, []⟩)
    (new : ∀ f, e.fiber? = some f → f ∉ D.stock ++ D.fibers)
    (covered : ∀ f, D.held.count f + e.fiber?.toList.count f ≤ w.fibers.handlesOf f) :
    Filed (D.accept c e) w := by
  have spots := D.spots_accept c e
  have fibers : (D.accept c e).fibers.Perm (e.fiber?.toList ++ D.fibers) := by
    refine (spots.filterMap _).trans ?_
    rw [filterMap_cons_toList, Spot.ofEntry_fiber?]
    exact .refl _
  have other : ∀ p ∈ D.spots, (D.accept c e).tasks p.1 = D.tasks p.1 := fun p mem =>
    Function.update_of_ne (Nat.ne_of_lt (h.number_lt mem)) _ _
  refine h.step (show Touches D (D.accept c e) w w [] [(D.count, .ofEntry e)] D.spots from
    ⟨.refl _, spots, h.fit, .of_fibers rfl, fun f => ?_, ?_, other,
      fun p mem => (h.sound p mem).alone_of_intact fun f _ => .of_same rfl rfl, ?_, fun n => ?_, ?_,
      fun f r _ _ hr _ => ⟨r, hr, rfl, rfl⟩, fun f mem => .inl mem, fun f mem => .inl mem,
      fun f mem => absurd mem List.not_mem_nil, h.picked⟩)
  · refine Nat.le_trans (Nat.le_of_eq ?_) (covered f)
    unfold Docket.held
    rw [List.count_append, List.count_append, (spots.filterMap _).count_eq, filterMap_cons_toList,
      Spot.ofEntry_held?, List.count_append]
    change List.count f (D.crew.flatMap Hand.keeps) + _ = _
    omega
  · refine (spots.map _).trans ?_
    rw [List.map_cons]
    refine (h.numbers.cons _).trans ?_
    change (D.count :: _).Perm (List.range (D.count + 1))
    rw [List.range_succ]
    exact (List.perm_append_singleton _ _).symm
  · intro p mem
    rw [List.mem_singleton.mp mem]
    change Spot.Sound w (Function.update D.tasks D.count _ D.count) _
    rw [Function.update_self]
    exact sound
  · change (Function.update D.tasks D.count _ n).Orderly
    by_cases hn : n = D.count
    · rw [hn, Function.update_self]
      trivial
    · rw [Function.update_of_ne hn]
      exact h.orderly n
  · have apart : (D.stock ++ (e.fiber?.toList ++ D.fibers)).Nodup := by
      cases hf : e.fiber? with
      | none => exact h.apart
      | some f => exact List.perm_middle.nodup_iff.mpr (List.nodup_cons.mpr ⟨new f hf, h.apart⟩)
    exact (fibers.append_left _).nodup_iff.mpr apart

/-- A task is where its fiber was before. -/
theorem Filed.respot (h : Filed D w) (same : Untouched w w') {p q : Nat × Spot}
    {others : List (Nat × Spot)} (before : D.spots.Perm (p :: others))
    (after : D'.spots.Perm (q :: others)) (number : q.1 = p.1) (fiber : q.2.fiber? = p.2.fiber?)
    (sound : q.2.Sound w (D.tasks p.1)) (tasks : D'.tasks = D.tasks) (count : D'.count = D.count)
    (covered : ∀ f, D'.held.count f ≤ w.fibers.handlesOf f) (stock : D'.stock = D.stock)
    (loose : ∀ f ∈ D'.loose, f ∈ D.loose ∨ p.2.fiber? = some f)
    (picked : ∀ x ∈ D'.crew, ∀ n e k, x.grip = .took n e → e.worker = some k →
      x.loop.worker = k) : Filed D' w' := by
  have served : ∀ f, p.2.fiber? = some f → f ∈ [q].filterMap (·.2.fiber?) := by
    intro f hf
    rw [filterMap_cons_toList, fiber, hf]
    exact List.mem_cons_self
  refine Filed.untouched ?_ same
  refine h.step (show Touches D D' w w [p] [q] others from ⟨before, after, h.fit,
    .of_fibers rfl, covered, ?_, fun _ _ => by rw [tasks], fun r mem => ?_, fun r mem => ?_,
    fun n => by rw [tasks]; exact h.orderly n, ?_, fun f r _ _ hr _ => ⟨r, hr, rfl, rfl⟩,
    fun f mem => .inl (stock ▸ mem), fun f mem => ?_, fun f mem => .inr ?_, picked⟩)
  · rw [count]
    refine (after.map _).trans (List.Perm.trans ?_ h.numbers)
    rw [List.map_cons, number]
    exact (before.map _).symm
  · have there := before.mem_iff.mpr (List.mem_cons_of_mem _ mem)
    exact (h.sound r there).alone_of_intact fun f _ => .of_same rfl rfl
  · rw [List.mem_singleton.mp mem, tasks, number]
    exact sound
  · have fibers : D'.fibers.Perm D.fibers := by
      refine (after.filterMap _).trans (List.Perm.trans ?_ (before.filterMap _).symm)
      rw [filterMap_cons_toList, filterMap_cons_toList, fiber]
    rw [stock]
    exact (fibers.append_left _).nodup_iff.mpr h.apart
  · rcases loose f mem with old | own
    · exact .inl old
    · exact .inr (.inr (served f own))
  · rw [filterMap_cons_toList, List.filterMap_nil, List.append_nil] at mem
    exact served f (Option.mem_toList.mp mem)

/-- What the handles of one spot come to. -/
theorem Docket.held_spots {p : Nat × Spot} {spots : List (Nat × Spot)}
    (perm : D.spots.Perm (p :: spots)) (f : FiberId) :
    D.held.count f = (D.crew.flatMap Hand.keeps).count f + p.2.held?.toList.count f +
      (spots.filterMap (·.2.held?)).count f := by
  rw [Docket.held, List.count_append, (perm.filterMap _).count_eq, filterMap_cons_toList,
    List.count_append]
  omega

/-- Where the task is that was on hold, before it is queued again and after that. -/
theorem Docket.spots_again {parked : List (Nat × FiberId)} (out : D.parked.Perm ((n, f) :: parked))
    (e : QueueEntry Body) :
    D.spots.Perm ((n, .parked f) :: ({ D with parked := parked } : Docket).spots) ∧
      (D.again parked n e).spots.Perm
        ((n, .ofEntry e) :: ({ D with parked := parked } : Docket).spots) :=
  ⟨Docket.spots_parked { D with parked := parked } out,
    Docket.spots_post { D with parked := parked } (p := (n, e)) (List.perm_append_singleton _ _)⟩

theorem Docket.held_again {parked : List (Nat × FiberId)} (out : D.parked.Perm ((n, f) :: parked))
    (e : QueueEntry Body) (g : FiberId) :
    (D.again parked n e).held.count g = D.held.count g + e.fiber?.toList.count g := by
  obtain ⟨before, after⟩ := D.spots_again out e
  rw [Docket.held_spots after, Docket.held_spots before, Spot.ofEntry_held?]
  change List.count g (D.crew.flatMap Hand.keeps) + _ + _ =
    List.count g (D.crew.flatMap Hand.keeps) + 0 + _ + _
  omega

theorem Filed.again (h : Filed D w) {e : QueueEntry Body} {parked : List (Nat × FiberId)}
    (task : e.task = .fiber f) (out : D.parked.Perm ((n, f) :: parked))
    (there : w.fibers.get? f ≠ none)
    (covered : ∀ f, D.held.count f + e.fiber?.toList.count f ≤ w.fibers.handlesOf f) :
    Filed (D.again parked n e) w := by
  obtain ⟨before, after⟩ := D.spots_again out e
  have spot : Spot.ofEntry e = .waits f e.worker := by rw [Spot.ofEntry, task]
  have sound := h.sound _ (before.mem_iff.mpr List.mem_cons_self)
  obtain ⟨on, left, gone | rests⟩ := sound
  · exact absurd gone.2 there
  refine h.respot ⟨rfl, rfl, rfl, rfl⟩ before after rfl (by rw [spot]; rfl) ?_ rfl rfl
    (fun g => by rw [Docket.held_again out]; exact covered g) rfl (fun g mem => .inl mem) h.picked
  rw [spot]
  refine ⟨.inr ⟨_, left, rfl⟩, on, ⟨_, rfl, rests⟩, fun fresh => ?_, fun ready => ?_⟩
  · rw [Assignment.left, fresh] at left
    cases left
  · rw [left] at ready
    cases ready

/-- The scheduler is handed entries: of callbacks, of fibers that serve none of its tasks and are
suspended, and of those of its tasks that are on hold. -/
inductive Accepts (w : World) : Docket → List (QueueEntry Body) → Docket → Prop where
  | nil {D : Docket} : Accepts w D [] D
  | callback {D D' : Docket} {body : Body} {pin : Option Nat} {es : List (QueueEntry Body)}
      (more : Accepts w (D.accept (.callback body) ⟨.callback body, pin⟩) es D') :
      Accepts w D (⟨.callback body, pin⟩ :: es) D'
  | fiber {D D' : Docket} {f : FiberId} {state : FiberState} {x : Rest} {pin : Option Nat}
      {es : List (QueueEntry Body)} (new : f ∉ D.fibers) (rests : w.Rests f state x)
      (resumable : state.isResumable = true)
      (more : Accepts w (D.accept (.fiber f x) ⟨.fiber f, pin⟩) es D') :
      Accepts w D (⟨.fiber f, pin⟩ :: es) D'
  | again {D D' : Docket} {n : Nat} {f : FiberId} {parked : List (Nat × FiberId)}
      {pin : Option Nat} {es : List (QueueEntry Body)} (out : D.parked.Perm ((n, f) :: parked))
      (there : w.fibers.get? f ≠ none) (more : Accepts w (D.again parked n ⟨.fiber f, pin⟩) es D') :
      Accepts w D (⟨.fiber f, pin⟩ :: es) D'

theorem Docket.held_accept (D : Docket) (c : Commission) (e : QueueEntry Body) (f : FiberId) :
    (D.accept c e).held.count f = D.held.count f + e.fiber?.toList.count f := by
  rw [Docket.held_spots (D.spots_accept c e), Docket.held, List.count_append, Spot.ofEntry_held?]
  change List.count f (D.crew.flatMap Hand.keeps) + _ + _ = _
  omega

/-- What the entries hold comes to what they hold one by one. -/
theorem held_cons_entries {held : Nat} {e : QueueEntry Body} {es : List (QueueEntry Body)}
    {handles : Nat} (covered : held + ((e :: es).filterMap QueueEntry.fiber?).count f ≤ handles) :
    held + e.fiber?.toList.count f + (es.filterMap QueueEntry.fiber?).count f ≤ handles := by
  rw [filterMap_cons_toList, List.count_append] at covered
  omega

theorem Accepts.filed {es : List (QueueEntry Body)} (accepts : Accepts w D es D') (h : Filed D w)
    (covered : ∀ f, D.held.count f + (es.filterMap QueueEntry.fiber?).count f ≤
      w.fibers.handlesOf f) :
    Filed D' w ∧ D'.posts.map Prod.snd = D.posts.map Prod.snd ++ es ∧ D'.crew = D.crew := by
  induction accepts with
  | nil => exact ⟨h, (List.append_nil _).symm, rfl⟩
  | @callback D D' body pin es more ih =>
    have step := fun f => held_cons_entries (covered f)
    obtain ⟨filed, queue, crew⟩ := ih (h.accept ⟨rfl, rfl, rfl⟩ (fun _ none => nomatch none)
      fun f => Nat.le_trans (Nat.le_add_right _ _) (step f))
      (fun f => by rw [Docket.held_accept]; exact step f)
    exact ⟨filed, queue.trans (by simp [Docket.accept]), crew⟩
  | @fiber D D' f state x pin es new rests resumable more ih =>
    have step := fun f => held_cons_entries (covered f)
    have off : ∀ g, some f = some g → g ∉ D.stock ++ D.fibers := by
      rintro g ⟨⟩ mem
      rcases List.mem_append.mp mem with stock | serves
      · obtain ⟨r, hr, ended, _⟩ := h.stock f stock
        obtain ⟨q, hq, rfl, _⟩ := rests.record
        obtain rfl := Option.some.inj (hr.symm.trans hq)
        cases hs : r.state <;> rw [hs] at ended resumable <;>
          first | exact Bool.noConfusion ended | exact Bool.noConfusion resumable
      · exact new serves
    obtain ⟨filed, queue, crew⟩ := ih (h.accept
      ⟨.inl rfl, rfl, ⟨state, resumable, rests⟩, fun _ => rfl, fun ready => nomatch ready⟩ off
      fun f => Nat.le_trans (Nat.le_add_right _ _) (step f))
      (fun f => by rw [Docket.held_accept]; exact step f)
    exact ⟨filed, queue.trans (by simp [Docket.accept]), crew⟩
  | @again D D' n f parked pin es out there more ih =>
    have step := fun f => held_cons_entries (covered f)
    obtain ⟨filed, queue, crew⟩ := ih (h.again rfl out there
      fun f => Nat.le_trans (Nat.le_add_right _ _) (step f))
      (fun f => by rw [Docket.held_again out]; exact step f)
    exact ⟨filed, queue.trans (by simp [Docket.again]), crew⟩

end Fibers.Script
