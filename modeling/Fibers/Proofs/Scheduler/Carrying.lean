import Fibers.Proofs.Scheduler.Accepting

/-!
Carrying tasks: the steps of a worker and what they make of a docket. A worker takes an entry, gives
a callback a fiber and comes to the fiber; the fiber leaves; the worker queues it again, accounts
for the entry, and keeps the fiber or lets go of it. Each of these steps moves one task to another
spot and leaves the others where they are.
-/

namespace Fibers.Script

variable {D E D' : Docket} {w w' : World} {l : Loop} {f : FiberId} {n : Nat}

namespace Docket

/-- The entry that a worker takes, with the number of its task. -/
def next (D : Docket) (w : World) (worker : Nat) : Option (Nat × QueueEntry Body) :=
  D.posts.find? fun p => TaskQueue.eligible w.isRunning worker p.2

/-- The entries that it leaves. -/
def others (D : Docket) (w : World) (worker : Nat) : List (Nat × QueueEntry Body) :=
  D.posts.eraseP fun p => TaskQueue.eligible w.isRunning worker p.2

/-- More is known about a task. -/
def noted (D : Docket) (n : Nat) (a : Assignment) : Docket :=
  { D with tasks := Function.update D.tasks n a }

end Docket

theorem Docket.held_eq (spots : D'.spots.Perm D.spots)
    (keeps : D'.crew.flatMap Hand.keeps = D.crew.flatMap Hand.keeps) (f : FiberId) :
    D'.held.count f = D.held.count f := by
  rw [Docket.held, Docket.held, List.count_append, List.count_append, keeps,
    (spots.filterMap _).count_eq]

/-- The entry that a worker takes out of the queue stands for its task. -/
theorem Filed.takes {p : Nat × QueueEntry Body} (h : Filed (E.hand ⟨l, .free⟩) w)
    (same : Untouched w w') (found : E.next w l.worker = some p) :
    Filed (({ E with posts := E.others w l.worker } : Docket).hand ⟨l, .took p.1 p.2⟩) w' := by
  let rest : Docket := { E with posts := E.others w l.worker }
  have spots : (rest.hand ⟨l, .took p.1 p.2⟩).spots.Perm (E.hand ⟨l, .free⟩).spots := by
    rw [Docket.spots_hand, Docket.spots_hand]
    exact (rest.spots_post (perm_eraseP found)).symm
  refine h.shift same spots rfl rfl (fun f => ?_) (fun _ => Nat.le_refl _) (fun _ mem => mem)
    fun x mem n e k grip pin => ?_
  · exact Nat.le_trans (Nat.le_of_eq (Docket.held_eq spots rfl f)) (h.covered f)
  · rcases List.mem_cons.mp mem with rfl | mem
    · obtain ⟨_, rfl⟩ := Grip.took.inj grip
      have able := List.find?_some found
      simp only [TaskQueue.eligible, pin, Bool.and_eq_true, beq_iff_eq] at able
      exact able.1.symm
    · exact h.picked x (List.mem_cons_of_mem _ mem) n e k grip pin

/-- Of what a worker has in its hands the pins say nothing, unless it is an entry that it took. -/
theorem Filed.picked_hand {x y : Hand} (h : Filed (E.hand x) w)
    (other : ∀ m e, y.grip ≠ .took m e) :
    ∀ z ∈ y :: E.crew, ∀ m e k, z.grip = .took m e → e.worker = some k → z.loop.worker = k := by
  intro z mem m e k took pinned
  rcases List.mem_cons.mp mem with rfl | mem
  · exact absurd took (other m e)
  · exact h.picked z (List.mem_cons_of_mem _ mem) m e k took pinned

/-- To come to a fiber or to leave it is nothing to a task that is another one's. -/
theorem Spot.Sound.alone_of_visits {a : Assignment} {p : Spot} (h : p.Sound w a)
    (visits : Visits f w w') (other : p.fiber? ≠ some f) : p.Alone w w' := by
  cases p with
  | fresh _ _ | ended => trivial
  | waits id _ =>
    obtain ⟨_, _, ⟨state, resumable, rests⟩, _⟩ := h
    exact visits.intact id state _ (fun e => other (congrArg some e)) rests
      fun e => Bool.noConfusion (e ▸ resumable)
  | runs id => exact visits.inHand id (fun e => other (congrArg some e)) h.1
  | ready id =>
    exact visits.intact id _ _ (fun e => other (congrArg some e)) h.2.2 FiberState.noConfusion
  | parked id =>
    rcases h.2.2 with gone | rests
    · exact .inr (visits.ages.gone id gone)
    · exact .inl (visits.intact id _ _ (fun e => other (congrArg some e)) rests
        FiberState.noConfusion)

/-- A worker comes to the fiber of a task or leaves it. -/
theorem Filed.visited {p q : Spot} {others : List (Nat × Spot)} {a : Assignment} (h : Filed D w)
    (visits : Visits f w w') (before : D.spots.Perm ((n, p) :: others))
    (after : D'.spots.Perm ((n, q) :: others)) (on : p.fiber? = some f)
    (tasks : D'.tasks = Function.update D.tasks n a) (count : D'.count = D.count)
    (held : ∀ g, D'.held.count g ≤ D.held.count g) (sound : q.Sound w' a) (orderly : a.Orderly)
    (apart : ∀ g, D'.stock.count g + q.fiber?.toList.count g ≤ D.stock.count g + [f].count g)
    (stock : ∀ g ∈ D'.stock, g ∈ D.stock ∨ w'.Spent g)
    (loose : ∀ g ∈ D'.loose, g ∈ D.loose ∨ w'.Over g ∨ q.fiber? = some g)
    (past : w'.Over f ∨ q.fiber? = some f)
    (picked : ∀ x ∈ D'.crew, ∀ n e k, x.grip = .took n e → e.worker = some k →
      x.loop.worker = k) : Filed D' w' := by
  have fibers : D.fibers.Perm ([f] ++ others.filterMap (·.2.fiber?)) := by
    refine (before.filterMap _).trans ?_
    rw [filterMap_cons_toList, on]
    exact .refl _
  have fibers' : D'.fibers.Perm (q.fiber?.toList ++ others.filterMap (·.2.fiber?)) := by
    refine (after.filterMap _).trans ?_
    rw [filterMap_cons_toList]
  have kept := visits.on.evolves.keeps h.covered
  have once := List.nodup_iff_count_le_one.mp h.apart
  have served : ∀ g, q.fiber? = some g → g ∈ [(n, q)].filterMap (·.2.fiber?) := by
    intro g hg
    rw [filterMap_cons_toList, hg]
    exact List.mem_cons_self
  have touches : Touches D D' w w' [(n, p)] [(n, q)] others :=
    { before := before
      after := after
      fit := visits.on.fit
      ages := visits.ages
      covered := fun g => Nat.le_trans (held g) (kept.covered h.covered g)
      numbers := by
        rw [count]
        exact (after.map _).trans ((before.map _).symm.trans h.numbers)
      tasks := by
        intro r mem
        have distinct : (((n, p) :: others).map Prod.fst).Nodup :=
          (before.map _).nodup_iff.mp (h.numbers.nodup_iff.mpr List.nodup_range)
        have other : r.1 ≠ n := fun e =>
          (List.nodup_cons.mp distinct).1 (List.mem_map.mpr ⟨r, mem, e⟩)
        rw [tasks, Function.update_of_ne other]
      alone := by
        intro r mem
        have there := before.mem_iff.mpr (List.mem_cons_of_mem _ mem)
        refine (h.sound r there).alone_of_visits visits fun same => ?_
        have once := once f
        have more : 0 < (others.filterMap (·.2.fiber?)).count f :=
          List.count_pos_iff.mpr (List.mem_filterMap.mpr ⟨r, mem, same⟩)
        rw [List.count_append, fibers.count_eq, List.count_append,
          List.count_singleton_self] at once
        omega
      sound := by
        intro r mem
        obtain rfl := List.mem_singleton.mp mem
        rw [tasks, Function.update_self]
        exact sound
      orderly := by
        intro m
        rw [tasks]
        by_cases hm : m = n
        · rw [hm, Function.update_self]
          exact orderly
        · rw [Function.update_of_ne hm]
          exact h.orderly m
      apart := by
        refine List.nodup_iff_count_le_one.mpr fun g => ?_
        have once := once g
        have apart := apart g
        rw [List.count_append, fibers.count_eq, List.count_append] at once
        rw [List.count_append, fibers'.count_eq, List.count_append]
        omega
      ends := by
        intro g r claimed _ hr ended
        obtain ⟨r', hr', main, _, state⟩ := kept g r (Nat.lt_of_lt_of_le claimed (held g)) hr
        exact ⟨r', hr', state ended, main⟩
      stock := stock
      loose := fun g mem => (loose g mem).imp_right (Or.imp_right (served g))
      moved := by
        intro g mem
        rw [filterMap_cons_toList, on] at mem
        obtain rfl := List.mem_singleton.mp mem
        exact past.imp_right (served g)
      picked := picked }
  exact h.step touches

/-- What the fiber goes on with that a thread has come to. -/
def World.setOut (w : World) (f : FiberId) : Rest :=
  ⟨w.thread.frames, (w.fibers.get? f).bind (·.entry)⟩

namespace Assignment

def begun (a : Assignment) (c : Stretch) : Assignment := { a with course := c :: a.course }

/-- The stretch in progress is at its end. -/
def ended (a : Assignment) (state : FiberState) (frames : List Frame) : Assignment :=
  match a.course with
  | [] => a
  | c :: past => { a with course := { c with ends := some (state, frames) } :: past }

end Assignment

/-- A worker has resumed the fiber of a task. -/
def Docket.begins (D : Docket) (l : Loop) (n : Nat) (f : FiberId) (pin : Option Nat) (own : Bool)
    (w : World) : Docket :=
  (D.noted n ((D.tasks n).begun ⟨l.worker, f, pin, w.setOut f, none⟩)).hand ⟨l, .runs n f own⟩

/-- The fiber that a worker resumes goes on with what its task has to go on with. -/
theorem Filed.begins {pin : Option Nat} (h : Filed (E.hand ⟨l, .took n ⟨.fiber f, pin⟩⟩) w)
    (serves : w.currentScheduler.isSome = true) (own : Bool) :
    ∃ w', (resume f).on w = (.ok (.done .null), w') ∧
      Filed (E.begins l n f pin own w') w' ∧ w'.schedulers = w.schedulers ∧
      w'.thread.current = some f := by
  have before : (E.hand ⟨l, .took n ⟨.fiber f, pin⟩⟩).spots.Perm ((n, .waits f pin) :: E.spots) :=
    .of_eq (E.spots_hand _)
  have sound : (Spot.waits f pin).Sound w (E.tasks n) :=
    h.sound _ (before.mem_iff.mpr List.mem_cons_self)
  obtain ⟨lasts, on, ⟨state, resumable, rests⟩, first, again⟩ := sound
  obtain ⟨w', done, visits, hand, current, frames, entry⟩ :=
    resume_rests h.fit rests resumable serves
  have goesOn : w'.setOut f = (E.tasks n).next f := by
    rw [World.setOut, frames, entry]
  refine ⟨w', done, ?_, visits.schedulers, current⟩
  let a := (E.tasks n).begun ⟨l.worker, f, pin, w'.setOut f, none⟩
  refine h.visited (q := .runs f) (a := a) visits before (.of_eq (Docket.spots_hand _ _)) rfl rfl
    rfl (fun _ => Nat.le_refl _) ⟨hand, _, _, rfl, rfl, rfl⟩ ⟨h.orderly n, ?_⟩
    (fun _ => Nat.le_refl _)
    (fun _ mem => .inl mem) (fun _ mem => .inl mem) (.inr rfl)
    (h.picked_hand fun _ _ => Grip.noConfusion)
  exact ⟨lasts, on, goesOn, fun k pinned => h.picked _ List.mem_cons_self _ _ k rfl pinned, first,
    again⟩

/-- The task is left in a state, with the frames that its fiber puts away. -/
def Docket.leaves (D : Docket) (l : Loop) (n : Nat) (f : FiberId) (own : Bool)
    (departure : Departure) (frames : List Frame) : Docket :=
  let a := (D.tasks n).ended departure.state frames
  match departure with
  | .ready => (D.noted n a).hand ⟨l, .ready n f⟩
  | .hold => ({ D with parked := (n, f) :: D.parked }.noted n a).hand ⟨l, .left f own .hold⟩
  | .returns | .panics _ =>
    ({ D with done := n :: D.done }.noted n a).hand ⟨l, .left f own departure.state⟩

/-- Where a task is that was left. -/
def Departure.spot (f : FiberId) : Departure → Spot
  | ready => .ready f
  | hold => .parked f
  | returns | panics _ => .ended

variable {own : Bool}

theorem Docket.spots_leaves (departure : Departure) (frames : List Frame) :
    (E.leaves l n f own departure frames).spots.Perm ((n, departure.spot f) :: E.spots) := by
  cases departure with
  | ready => exact .of_eq (Docket.spots_hand _ _)
  | hold =>
    exact (List.Perm.of_eq (Docket.spots_hand _ _)).trans (E.spots_parked (p := (n, f)) (.refl _))
  | returns | panics _ => exact (List.Perm.of_eq (Docket.spots_hand _ _)).trans (E.spots_done n)

namespace Assignment

variable {a : Assignment} {c : Stretch} {past : List Stretch}

theorem ended_of_course (course : a.course = c :: past) (state : FiberState)
    (frames : List Frame) :
    a.ended state frames =
      { a with course := { c with ends := some (state, frames) } :: past } := by
  rw [ended, course]

theorem left_ended (course : a.course = c :: past) (state : FiberState) (frames : List Frame) :
    (a.ended state frames).left = some state := by
  rw [ended_of_course course]
  rfl

/-- How a stretch ends is nothing to how it took the task up. -/
theorem Orderly.ended (h : a.Orderly) (course : a.course = c :: past) (state : FiberState)
    (frames : List Frame) : (a.ended state frames).Orderly := by
  unfold Orderly at h
  rw [course] at h
  obtain ⟨orderly, follows⟩ := h
  rw [ended_of_course course]
  exact ⟨orderly, follows.lasts, follows.on, follows.begins, follows.picked, follows.first,
    follows.again⟩

end Assignment

/-- What the worker has a handle of is the same fiber. -/
theorem Docket.held_leaves (departure : Departure) (frames : List Frame) (g : FiberId) :
    (E.leaves l n f own departure frames).held.count g ≤
      (E.hand ⟨l, .runs n f own⟩).held.count g := by
  have before : (E.hand ⟨l, .runs n f own⟩).spots.Perm ((n, .runs f) :: E.spots) :=
    .of_eq (E.spots_hand _)
  rw [held_spots before, held_spots (E.spots_leaves departure _)]
  cases departure <;>
    simp only [leaves, hand, noted, Hand.keeps, Grip.loose, Departure.spot, Spot.held?,
      List.flatMap_cons, List.count_append, List.count_cons, List.count_nil, Option.toList_some,
      Option.toList_none] <;> omega

/-- A fiber for callbacks that has ended may be used again. -/
theorem Docket.stock_leaves (departure : Departure) (frames : List Frame) (g : FiberId) :
    (E.leaves l n f own departure frames).stock.count g ≤
      (E.hand ⟨l, .runs n f own⟩).stock.count g +
        (if departure.state.isTerminal then [f] else []).count g := by
  cases departure <;> cases own <;>
    simp [leaves, hand, noted, stock, Hand.stock, Grip.spent, Departure.state,
      FiberState.isTerminal, List.count_cons] <;> omega

theorem Docket.mem_stock_leaves {departure : Departure} {frames : List Frame} {g : FiberId}
    (mem : g ∈ (E.leaves l n f own departure frames).stock) :
    g ∈ (E.hand ⟨l, .runs n f own⟩).stock ∨ departure.state.isTerminal = true ∧ g = f := by
  by_cases old : g ∈ (E.hand ⟨l, .runs n f own⟩).stock
  · exact .inl old
  · have stock : (E.leaves l n f own departure frames).stock.count g ≤ _ :=
      E.stock_leaves departure frames g
    have there := List.count_pos_iff.mpr mem
    rw [List.count_eq_zero_of_not_mem old] at stock
    split at stock
    · next terminal =>
      have same : g ∈ [f] := List.count_pos_iff.mp (by omega)
      exact .inr ⟨terminal, List.mem_singleton.mp same⟩
    · rw [List.count_nil] at stock
      omega

theorem Filed.departs (h : Filed (E.hand ⟨l, .runs n f own⟩) w) (begun : w.Begun)
    (here : w.thread.current = some f) (departure : Departure) (lawful : departure.Lawful) :
    ∃ w', (departure.act f).on w = (.ok (.left departure.state), w') ∧
      Filed (E.leaves l n f own departure w.thread.frames) w' ∧ w'.schedulers = w.schedulers := by
  have before : (E.hand ⟨l, .runs n f own⟩).spots.Perm ((n, .runs f) :: E.spots) :=
    .of_eq (E.spots_hand _)
  have after : (E.leaves l n f own departure w.thread.frames).spots.Perm
      ((n, departure.spot f) :: E.spots) := E.spots_leaves departure _
  have sound : (Spot.runs f).Sound w (E.tasks n) :=
    h.sound _ (before.mem_iff.mpr List.mem_cons_self)
  obtain ⟨hand, c, past, course, on, -⟩ := sound
  obtain ⟨w', done, visits, frames, rests, same⟩ :=
    departure.visits h.fit begun here hand lawful
  refine ⟨w', done, ?_, visits.schedulers⟩
  let a := (E.tasks n).ended departure.state w.thread.frames
  have ended : a = _ := Assignment.ended_of_course course _ _
  have orderly : a.Orderly := Assignment.Orderly.ended (h.orderly n) course _ _
  have left : a.left = some departure.state := Assignment.left_ended course _ _
  have served : a.On f := by
    rw [ended]
    exact on
  have spent : departure.state.isTerminal = true → w'.Spent f := by
    intro terminal
    obtain ⟨r, hr, state, _, main, _⟩ := rests.record
    exact ⟨r, hr, by rw [state, terminal], main⟩
  have goesOn : departure.state.isTerminal = false →
      w'.Rests f departure.state (a.next f) := by
    intro lasts
    obtain rfl := same lasts
    rw [ended]
    exact rests
  refine h.visited (q := departure.spot f) (a := a) visits before after rfl
    (by cases departure <;> rfl) (by cases departure <;> rfl) (E.held_leaves departure _) ?sound
    orderly (fun g => ?apart) (fun g mem => ?stock) (fun g mem => ?loose) ?past ?picked
  case sound =>
    cases departure with
    | ready => exact ⟨served, left, goesOn rfl⟩
    | hold => exact ⟨served, left, .inr (goesOn rfl)⟩
    | returns | panics _ => exact ⟨_, left, rfl⟩
  case apart =>
    have stock : (E.leaves l n f own departure w.thread.frames).stock.count g ≤ _ :=
      E.stock_leaves departure _ g
    cases departure with
    | ready | hold => exact Nat.add_le_add_right stock _
    | returns | panics _ => exact stock
  case stock =>
    rcases Docket.mem_stock_leaves mem with old | ⟨terminal, rfl⟩
    · exact .inl old
    · exact .inr (spent terminal)
  case loose =>
    cases departure with
    | ready => exact .inl mem
    | hold => exact (List.mem_cons.mp mem).elim (fun same => .inr (.inr (by rw [same]; rfl))) .inl
    | returns | panics _ =>
      exact (List.mem_cons.mp mem).elim
        (fun same => .inr (.inl (by rw [same]; exact (spent rfl).past))) .inl
  case past =>
    cases departure with
    | ready | hold => exact .inr rfl
    | returns | panics _ => exact .inl (spent rfl).past
  case picked =>
    cases departure with
    | ready | hold | returns | panics _ => exact h.picked_hand fun _ _ => Grip.noConfusion

/-- The fiber goes back to the queue, for any worker. -/
theorem Filed.backs (h : Filed (E.hand ⟨l, .ready n f⟩) w) (same : Untouched w w') :
    Filed (({ E with posts := E.posts ++ [(n, ⟨.fiber f, none⟩)] } : Docket).hand ⟨l, .owes⟩)
      w' := by
  have before : (E.hand ⟨l, .ready n f⟩).spots.Perm ((n, .ready f) :: E.spots) :=
    .of_eq (E.spots_hand _)
  have after : (({ E with posts := E.posts ++ [(n, ⟨.fiber f, none⟩)] } : Docket).hand
      ⟨l, .owes⟩).spots.Perm ((n, .waits f none) :: E.spots) :=
    E.spots_post (p := (n, ⟨.fiber f, none⟩)) (List.perm_append_singleton _ _)
  have sound : (Spot.ready f).Sound w (E.tasks n) :=
    h.sound _ (before.mem_iff.mpr List.mem_cons_self)
  obtain ⟨on, left, rests⟩ := sound
  refine h.respot same before after rfl rfl
    ⟨.inr ⟨_, left, rfl⟩, on, ⟨_, rfl, rests⟩, fun fresh => ?_, fun _ => rfl⟩ rfl rfl
    (fun g => Nat.le_trans (Nat.le_of_eq ?_) (h.covered g)) rfl
    (fun _ mem => .inl mem) (h.picked_hand fun _ _ => Grip.noConfusion)
  · change Assignment.course (E.tasks n) = [] at fresh
    rw [Assignment.left, fresh] at left
    cases left
  · rw [Docket.held_spots before, Docket.held_spots after]
    rfl

/-- What a worker has in its hands when its entry is accounted for. -/
def Grip.settled : Grip → Grip
  | owes => free
  | left id own state => past id own state
  | grip => grip

theorem Filed.settles {grip : Grip} (h : Filed (E.hand ⟨l, grip⟩) w) (same : Untouched w w') :
    Filed (E.hand ⟨l, grip.settled⟩) w' := by
  refine h.shift same ?_ rfl rfl (fun f => ?_) (fun f => ?_) (fun f mem => ?_)
    fun x mem n e k took pinned => ?_
  · cases grip <;> exact .refl _
  · refine Nat.le_trans (Nat.le_of_eq ?_) (h.covered f)
    cases grip <;> rfl
  · cases grip <;> exact Nat.le_refl _
  · cases grip <;> exact mem
  · rcases List.mem_cons.mp mem with rfl | mem
    · refine h.picked ⟨l, grip⟩ List.mem_cons_self n e k ?_ pinned
      cases grip <;> first | exact took | exact Grip.noConfusion took
    · exact h.picked x (List.mem_cons_of_mem _ mem) n e k took pinned

/-- The fiber that came back to a worker and does not go on at once, whether it is one for
callbacks, and the state in which it was left. -/
def Grip.back? : Grip → Option (FiberId × Bool × FiberState)
  | left id own state | past id own state => some (id, own, state)
  | _ => none

/-- What a worker has in its hands when it has put that fiber away. -/
def Grip.cleared : Grip → Grip
  | left .. => owes
  | past .. => free
  | grip => grip

theorem Grip.of_back {grip : Grip} {state : FiberState} (back : grip.back? = some (f, own, state)) :
    grip = .left f own state ∨ grip = .past f own state := by
  cases grip with
  | left id own' state' | past id own' state' =>
    obtain ⟨rfl, rfl, rfl⟩ : id = f ∧ own' = own ∧ state' = state := by
      simpa only [Grip.back?, Option.some.injEq, Prod.mk.injEq] using back
    first | exact .inl rfl | exact .inr rfl
  | _ => exact absurd back (Option.some_ne_none _).symm

theorem Grip.cleared_ne_took {grip : Grip} {state : FiberState}
    (back : grip.back? = some (f, own, state)) (m : Nat) (e : QueueEntry Body) :
    grip.cleared ≠ .took m e := by
  rcases Grip.of_back back with rfl | rfl <;> exact Grip.noConfusion

/-- The fiber of a callback that has ended is kept for another one. -/
theorem Filed.recycles {grip : Grip} {state : FiberState} (h : Filed (E.hand ⟨l, grip⟩) w)
    (back : grip.back? = some (f, true, state)) (ended : state.isTerminal = true) :
    Filed (E.hand ⟨{ l with pool := f :: l.pool }, grip.cleared⟩) w := by
  refine h.shift ⟨rfl, rfl, rfl, rfl⟩ ?_ rfl rfl (fun g => ?_) (fun g => ?_) (fun g mem => ?_)
    (h.picked_hand (Grip.cleared_ne_took back))
  · rcases Grip.of_back back with rfl | rfl <;> exact .refl _
  · refine Nat.le_trans (Nat.le_of_eq ?_) (h.covered g)
    rw [Docket.held_hand, Docket.held_hand]
    rcases Grip.of_back back with rfl | rfl <;>
      simp only [Hand.keeps, Grip.cleared, Grip.loose, Grip.spots, List.count_append,
        List.count_cons, List.count_nil, List.filterMap_nil] <;> omega
  · refine Nat.le_of_eq ?_
    rw [Docket.stock_hand, Docket.stock_hand]
    rcases Grip.of_back back with rfl | rfl <;>
      simp only [Hand.stock, Grip.cleared, Grip.spent, ended, Bool.and_self, if_true,
        List.count_append, List.count_cons, List.count_nil] <;> omega
  · rcases Grip.of_back back with rfl | rfl <;> exact List.mem_cons_of_mem _ mem

/-- A fiber that has ended, or is one of a task, and of which neither the queue nor a worker has a
handle for a task, is in no resume and holds no body. -/
theorem Filed.calm (h : Filed D w) {r : FiberRecord Body} (hr : w.fibers.get? f = some r)
    (known : w.Over f ∨ f ∈ D.fibers) :
    f ∈ D.spots.filterMap (·.2.held?) ∨ r.entry = none ∧ r.state ≠ .exec ∧ r.awaiting = none := by
  rcases known with ⟨q, hq, ended⟩ | serves
  · obtain rfl := Option.some.inj (hr.symm.trans hq)
    exact .inr ⟨h.fit.staffed.begun f r hr ended, fun e => Bool.noConfusion (e ▸ ended),
      h.fit.staffed.unwaiting_of_ended hr ended⟩
  · obtain ⟨⟨n, p⟩, mem, on⟩ := List.mem_filterMap.mp serves
    have sound := h.sound _ mem
    cases p with
    | fresh _ _ | ended => cases on
    | waits id _ | runs id | ready id => exact .inl (List.mem_filterMap.mpr ⟨_, mem, on⟩)
    | parked id =>
      obtain rfl := Option.some.inj on
      obtain ⟨_, left, gone | rests⟩ := sound
      · exact absurd (gone.2.symm.trans hr) (Option.some_ne_none r).symm
      · obtain ⟨q, hq, state, unwaiting, _, entry⟩ := rests.record
        obtain rfl := Option.some.inj (hr.symm.trans hq)
        refine .inr ⟨entry.trans ?_, by rw [state]; exact FiberState.noConfusion, unwaiting⟩
        unfold Assignment.left at left
        unfold Assignment.next
        cases hc : (D.tasks n).course with
        | nil =>
          rw [hc] at left
          cases left
        | cons c past => rfl

/-- Workers let go of handles of fibers that have ended, or of which a task has another one. -/
theorem Filed.releases {ids : List FiberId} (h : Filed D w)
    (spots : D'.spots.Perm D.spots) (tasks : D'.tasks = D.tasks) (count : D'.count = D.count)
    (held : ∀ g, D'.held.count g + ids.count g ≤ D.held.count g)
    (known : ∀ g ∈ ids, w.Over g ∨ g ∈ D.fibers)
    (stock : ∀ f, D'.stock.count f ≤ D.stock.count f) (loose : ∀ f ∈ D'.loose, f ∈ D.loose)
    (picked : ∀ x ∈ D'.crew, ∀ n e k, x.grip = .took n e → e.worker = some k →
      x.loop.worker = k) :
    ∃ w', (release (ids.map .fiber)).on w = (.ok (), w') ∧ Lets ids w w' ∧ Filed D' w' := by
  have covered : ∀ g, D'.held.count g + ids.count g ≤ w.fibers.handlesOf g := fun g =>
    Nat.le_trans (held g) (h.covered g)
  -- A handle is left of a fiber which the queue or a worker has one of.
  have left : ∀ g r, 0 < D'.held.count g → w.fibers.get? g = some r → ids.count g < r.handles := by
    intro g r claimed hr
    have covered := covered g
    rw [FiberTable.handlesOf_of_get? hr] at covered
    omega
  have claims : ∀ g ∈ D.spots.filterMap (·.2.held?), 0 < D'.held.count g := fun g mem =>
    List.count_pos_iff.mpr (List.mem_append_right _ ((spots.filterMap _).mem_iff.mpr mem))
  have calm : ∀ g ∈ ids, ∀ r, w.fibers.get? g = some r →
      ids.count g < r.handles ∨ r.entry = none ∧ r.state ≠ .exec ∧ r.awaiting = none :=
    fun g mem r hr => (h.calm hr (known g mem)).imp_left fun on => left g r (claims g on) hr
  obtain ⟨w', released, lets⟩ := release_lets ids w fun g mem r hr =>
    (calm g mem r hr).elim .inr fun still => .inl still.1
  have outside : Outside D'.held w w' := lets.outside h.fit covered fun g mem r hr =>
    (calm g mem r hr).imp_right And.right
  refine ⟨w', released, lets, ?_⟩
  have gone : ∀ f, w.fibers.get? f = none → w'.fibers.get? f = none := outside.none
  have alone : ∀ p ∈ D.spots, p.2.Alone w w' := by
    intro p mem
    have sound := h.sound p mem
    have claims : ∀ g, p.2.held? = some g → 0 < D'.held.count g := fun g hg =>
      claims g (List.mem_filterMap.mpr ⟨p, mem, hg⟩)
    obtain ⟨n, p⟩ := p
    cases p with
    | fresh _ _ | ended => trivial
    | waits id _ | ready id => exact .lets lets fun r hr => .inr (left id r (claims id rfl) hr)
    | runs id => exact sound.1.spared (.lets lets fun r hr => .inr (left id r (claims id rfl) hr))
    | parked id =>
      cases hr : w.fibers.get? id with
      | none => exact .inr (gone id hr)
      | some r =>
        by_cases spare : ids.count id = 0 ∨ ids.count id < r.handles
        · refine .inl (.lets lets fun q hq => ?_)
          obtain rfl := Option.some.inj (hr.symm.trans hq)
          exact spare
        · refine .inr ?_
          rw [lets.fibers, hr, Option.bind_some, FiberRecord.lessen, if_neg spare]
  have touches : Touches D D' w w' [] [] D.spots :=
    { before := .refl _
      after := spots
      fit := outside.fit h.fit
      ages := ⟨Nat.le_of_eq lets.lastId.symm, fun f lost => gone f lost.2⟩
      covered := outside.keeps.covered fun g =>
        Nat.le_trans (Nat.le_add_right _ _) (covered g)
      numbers := by
        rw [count]
        exact (spots.map _).trans h.numbers
      tasks := fun p _ => by rw [tasks]
      alone := alone
      sound := fun p mem => absurd mem List.not_mem_nil
      orderly := by
        rw [tasks]
        exact h.orderly
      apart := by
        refine List.nodup_iff_count_le_one.mpr fun f => ?_
        have once := List.nodup_iff_count_le_one.mp h.apart f
        have fibers : D'.fibers.count f = D.fibers.count f := (spots.filterMap _).count_eq f
        have stock := stock f
        rw [List.count_append] at once ⊢
        omega
      ends := by
        intro f r claimed _ hr _
        have after := lets.fibers f
        rw [hr, Option.bind_some, FiberRecord.lessen, if_pos (.inr (left f r claimed hr))] at after
        exact ⟨_, after, rfl, rfl⟩
      stock := fun f mem => .inl
        (List.count_pos_iff.mp (Nat.lt_of_lt_of_le (List.count_pos_iff.mpr mem) (stock f)))
      loose := fun f mem => .inl (loose f mem)
      moved := fun f mem => absurd mem List.not_mem_nil
      picked := picked }
  exact h.step touches

/-- The worker lets go of the fiber that it resumed. -/
theorem Filed.drops {grip : Grip} {state : FiberState} (h : Filed (E.hand ⟨l, grip⟩) w)
    (back : grip.back? = some (f, own, state)) :
    ∃ w', (release [.fiber f]).on w = (.ok (), w') ∧ Lets [f] w w' ∧
      Filed (E.hand ⟨l, grip.cleared⟩) w' := by
  change ∃ w', (release ([f].map Handle.fiber)).on w = (.ok (), w') ∧ Lets [f] w w' ∧ _
  refine h.releases ?_ rfl rfl (fun g => ?_) (fun g mem => ?_) (fun g => ?_) (fun g mem => ?_)
    (h.picked_hand (Grip.cleared_ne_took back))
  · rcases Grip.of_back back with rfl | rfl <;> exact .refl _
  · rw [Docket.held_hand, Docket.held_hand]
    rcases Grip.of_back back with rfl | rfl <;>
      simp only [Hand.keeps, Grip.cleared, Grip.loose, Grip.spots, List.count_append,
        List.count_cons, List.count_nil, List.filterMap_nil] <;> omega
  · rw [List.mem_singleton.mp mem]
    rcases Grip.of_back back with rfl | rfl <;> exact h.loose f List.mem_cons_self
  · rw [Docket.stock_hand, Docket.stock_hand]
    rcases Grip.of_back back with rfl | rfl <;>
      simp only [Hand.stock, Grip.cleared, Grip.spent, List.count_append, List.count_nil] <;> omega
  · rcases Grip.of_back back with rfl | rfl <;> exact List.mem_cons_of_mem _ mem

theorem Filed.hires (h : Filed D w) (pool : l.pool = [])
    (handed : D.held.count l.idleFiber < w.fibers.handlesOf l.idleFiber) :
    Filed (D.hand ⟨l, .free⟩) w := by
  refine h.shift ⟨rfl, rfl, rfl, rfl⟩ (.refl _) rfl rfl (fun g => ?_) (fun g => ?_)
    (fun g mem => mem) fun x mem n e k took pinned => ?_
  · have covered := h.covered g
    rw [Docket.held_hand]
    simp only [Hand.keeps, Grip.loose, Grip.spots, pool, List.nil_append, List.filterMap_nil,
      List.count_nil, List.count_cons]
    split
    · next same =>
      rw [eq_of_beq same] at handed
      omega
    · omega
  · rw [Docket.stock_hand]
    simp only [Hand.stock, Grip.spent, pool, List.nil_append]
    exact Nat.le_refl _
  · rcases List.mem_cons.mp mem with rfl | mem
    · exact Grip.noConfusion took
    · exact h.picked x mem n e k took pinned

/-- The idle fiber of the worker has ended. -/
theorem Filed.retires (h : Filed (E.hand ⟨l, .free⟩) w)
    (finished : (w.fibers.state l.idleFiber).isTerminal = true) :
    ∃ w', (release l.handles).on w = (.ok (), w') ∧ Lets (l.pool.reverse ++ [l.idleFiber]) w w' ∧
      Filed E w' := by
  have handles : l.handles = (l.pool.reverse ++ [l.idleFiber]).map Handle.fiber := by
    rw [Loop.handles, List.map_append]
    rfl
  rw [handles]
  refine h.releases (.refl _) rfl rfl (fun g => ?_) (fun g mem => .inl ?_) (fun g => ?_)
    (fun g mem => mem) fun x mem => h.picked x (List.mem_cons_of_mem _ mem)
  · rw [Docket.held_hand]
    simp only [Hand.keeps, Grip.loose, Grip.spots, List.count_append, List.count_cons,
      List.count_nil, List.filterMap_nil, List.count_reverse]
    omega
  · rcases List.mem_append.mp mem with pooled | idle
    · refine (h.stock g ?_).past
      exact List.mem_append_left _ (List.mem_append_left _ (List.mem_reverse.mp pooled))
    · obtain rfl := List.mem_singleton.mp idle
      have covered := h.covered l.idleFiber
      rw [Docket.held_hand] at covered
      simp only [Hand.keeps, List.count_append, List.count_cons_self] at covered
      have there : 0 < w.fibers.handlesOf l.idleFiber := by omega
      obtain ⟨r, hr, _⟩ := FiberTable.exists_of_handlesOf there
      rw [FiberTable.state, hr] at finished
      exact ⟨r, hr, finished⟩
  · rw [Docket.stock_hand, List.count_append]
    exact Nat.le_add_left _ _

/-- A fiber of a task is one that there was. -/
theorem Filed.fiber_le (h : Filed D w) (mem : f ∈ D.fibers) : f.val ≤ w.fibers.lastId := by
  have there : ∀ r, w.fibers.get? f = some r → f.val ≤ w.fibers.lastId := fun r hr =>
    h.fit.staffed.numbered f r.standing (congrArg (Option.map _) hr)
  obtain ⟨⟨n, p⟩, mem, on⟩ := List.mem_filterMap.mp mem
  have sound := h.sound _ mem
  cases p with
  | fresh _ _ | ended => cases on
  | waits id _ =>
    obtain rfl := Option.some.inj on
    obtain ⟨_, _, ⟨_, _, rests⟩, _⟩ := sound
    obtain ⟨r, hr, _⟩ := rests.record
    exact there r hr
  | runs id =>
    obtain rfl := Option.some.inj on
    obtain ⟨r, hr, _⟩ := sound.1
    exact there r hr
  | ready id =>
    obtain rfl := Option.some.inj on
    obtain ⟨r, hr, _⟩ := sound.2.2.record
    exact there r hr
  | parked id =>
    obtain rfl := Option.some.inj on
    rcases sound.2.2 with gone | rests
    · exact gone.1
    · obtain ⟨r, hr, _⟩ := rests.record
      exact there r hr

/-- A callback that a worker has taken gets a fiber. -/
theorem Filed.equips {pin : Option Nat} {body : Body} {pool : List FiberId}
    (h : Filed (E.hand ⟨l, .took n ⟨.callback body, pin⟩⟩) w) (fit : w'.Fit) (ages : Ages w w')
    (intact : ∀ g, g ≠ f → Intact g w w') (rests : w'.Rests f .init ⟨[.fiberStart f], some body⟩)
    (covered : ∀ g, (E.hand ⟨{ l with pool := pool }, .took n ⟨.fiber f, pin⟩⟩).held.count g ≤
      w'.fibers.handlesOf g)
    (pooled : ∀ g, pool.count g ≤ l.pool.count g) (new : f ∉ pool ++ E.stock ++ E.fibers) :
    Filed (E.hand ⟨{ l with pool := pool }, .took n ⟨.fiber f, pin⟩⟩) w' := by
  let D' := E.hand ⟨{ l with pool := pool }, .took n ⟨.fiber f, pin⟩⟩
  have before : (E.hand ⟨l, .took n ⟨.callback body, pin⟩⟩).spots.Perm
      ([(n, .fresh body pin)] ++ E.spots) := .of_eq (E.spots_hand _)
  have after : D'.spots.Perm ([(n, .waits f pin)] ++ E.spots) := .of_eq (E.spots_hand _)
  have sound : (Spot.fresh body pin).Sound w (E.tasks n) :=
    h.sound _ (before.mem_iff.mpr List.mem_cons_self)
  obtain ⟨commission, course, pinned⟩ := sound
  have next : (E.tasks n).next f = ⟨[.fiberStart f], some body⟩ := by
    rw [Assignment.next, course, commission]
    rfl
  have on : (E.tasks n).On f := by
    rw [Assignment.On, course, commission]
    trivial
  have apart : (l.pool ++ (E.stock ++ E.fibers)).Nodup := by
    have apart := h.apart
    rw [Docket.stock_hand, Docket.fibers_hand] at apart
    simpa [Hand.stock, Grip.spent, Grip.spots, Spot.ofEntry, Spot.fiber?] using apart
  have off : ∀ p ∈ E.spots, ∀ g, p.2.fiber? = some g → g ≠ f := by
    rintro p mem g hg rfl
    exact new (List.mem_append_right _ (List.mem_filterMap.mpr ⟨p, mem, hg⟩))
  refine h.step (show Touches _ D' w w' _ _ E.spots from ⟨before, after, fit, ages, covered, ?_,
    fun _ _ => rfl, fun p mem => ?_, fun p mem => ?_, h.orderly, ?_, fun g r _ other hr _ => ?_,
    fun g mem => .inl ?_, fun g mem => .inl mem, fun g mem => absurd mem List.not_mem_nil,
    fun x mem m e k took pinned => ?_⟩)
  · exact (after.map _).trans ((before.map _).symm.trans h.numbers)
  · have there := before.mem_iff.mpr (List.mem_append_right _ mem)
    exact (h.sound p there).alone_of_intact fun g hg => intact g (off p mem g hg)
  · rw [List.mem_singleton.mp mem]
    refine ⟨.inl course, on, ⟨.init, rfl, ?_⟩, fun _ => pinned, fun ready => ?_⟩
    · change w'.Rests f .init ((E.tasks n).next f)
      rw [next]
      exact rests
    · change Assignment.left (E.tasks n) = _ at ready
      rw [Assignment.left, course] at ready
      cases ready
  · change ((pool ++ [] ++ E.stock) ++ (f :: E.fibers)).Nodup
    rw [List.append_nil]
    refine List.perm_middle.nodup_iff.mpr (List.nodup_cons.mpr ⟨new, ?_⟩)
    refine List.nodup_iff_count_le_one.mpr fun g => ?_
    have once := List.nodup_iff_count_le_one.mp apart g
    have pooled := pooled g
    simp only [List.count_append] at once ⊢
    omega
  · have other : g ≠ f := fun same => other (same ▸ List.mem_cons_self)
    obtain ⟨m, hm⟩ := (intact g other).record r hr
    exact ⟨_, hm, rfl, rfl⟩
  · change g ∈ pool ++ [] ++ E.stock at mem
    change g ∈ l.pool ++ [] ++ E.stock
    rw [List.append_nil] at mem ⊢
    refine (List.mem_append.mp mem).elim (fun kept => List.mem_append_left _ ?_)
      (List.mem_append_right _)
    exact List.count_pos_iff.mp (Nat.lt_of_lt_of_le (List.count_pos_iff.mpr kept) (pooled g))
  · rcases List.mem_cons.mp mem with rfl | mem
    · obtain ⟨_, rfl⟩ := Grip.took.inj took
      exact h.picked _ List.mem_cons_self _ _ k rfl pinned
    · exact h.picked x (List.mem_cons_of_mem _ mem) m e k took pinned

/-- The first fiber of the pool. -/
theorem Filed.pools {pin : Option Nat} {body : Body} {pool : List FiberId}
    (h : Filed (E.hand ⟨l, .took n ⟨.callback body, pin⟩⟩) w) (pooled : l.pool = f :: pool) :
    (resetFiber f body).on w = (.ok (), w.restarted f body) ∧
      Filed (E.hand ⟨{ l with pool := pool }, .took n ⟨.fiber f, pin⟩⟩) (w.restarted f body) := by
  have stocked : f ∈ (E.hand ⟨l, .took n ⟨.callback body, pin⟩⟩).stock := by
    refine List.mem_append_left _ (List.mem_append_left _ ?_)
    rw [pooled]
    exact List.mem_cons_self
  obtain ⟨r, hr, ended, own⟩ := h.stock f stocked
  have records := w.fibers.get?_restarted f body
  have apart : (f :: (pool ++ E.stock ++ E.fibers)).Nodup := by
    have apart := h.apart
    rw [Docket.stock_hand, Docket.fibers_hand] at apart
    simpa [Hand.stock, Grip.spent, Grip.spots, Spot.ofEntry, Spot.fiber?, pooled] using apart
  refine ⟨resetFiber_of_ended h.fit hr ended own body, h.equips
    ⟨h.fit.thread, h.fit.staffed.restarted hr ended body⟩ ⟨Nat.le_refl _, fun g gone => ?_⟩
    (fun g other => ⟨fun q hq => ⟨q.handles, ?_⟩, fun _ => ?_⟩) ⟨?_, ?_⟩ (fun g => ?_) (fun g => ?_)
    (List.nodup_cons.mp apart).1⟩
  · refine (records g).trans ?_
    have other : g ≠ f := by
      rintro rfl
      exact absurd (hr.symm.trans gone.2) (Option.some_ne_none r)
    rw [if_neg other, gone.2]
  · exact (records g).trans ((if_neg other).trans hq)
  · exact Table.get?_put_other _ _ other
  · refine ⟨_, (records f).trans ((if_pos rfl).trans (congrArg _ hr)), rfl, rfl, own, rfl⟩
  · change ((w.saved.put f _).get? f).getD [] = _
    rw [Table.get?_put_self]
    rfl
  · have handles : (w.restarted f body).fibers.handlesOf g = w.fibers.handlesOf g := by
      unfold FiberTable.handlesOf
      change (((w.fibers.restarted f body).get? g).map _).getD 0 = _
      rw [records]
      split
      · next same =>
        rw [same, hr]
        rfl
      · rfl
    rw [handles]
    refine Nat.le_trans (Nat.le_of_eq ?_) (h.covered g)
    rw [Docket.held_hand, Docket.held_hand]
    simp only [Hand.keeps, Grip.loose, Grip.spots, Spot.ofEntry, Spot.held?, pooled,
      filterMap_cons_toList, Option.toList_some, Option.toList_none, List.filterMap_nil,
      List.count_append, List.count_cons, List.count_nil]
    omega
  · rw [pooled]
    exact List.count_le_count_cons

/-- A fiber that was made for it. -/
theorem Filed.makes {pin : Option Nat} {body : Body} {usable : Nat} {k : Kernel.State}
    (h : Filed (E.hand ⟨l, .took n ⟨.callback body, pin⟩⟩) w)
    (quiet : Quiet ({ w with kernel := k }.withFiber body usable true) w') :
    Filed (E.hand ⟨l, .took n ⟨.fiber ⟨w.fibers.lastId + 1⟩, pin⟩⟩) w' := by
  let new : FiberId := ⟨w.fibers.lastId + 1⟩
  have same := quiet.untouched
  have records : ∀ g, w'.fibers.get? g = if g = new then
      some ⟨.init, .init, some usable, true, some body, none, none, 1⟩ else w.fibers.get? g := by
    intro g
    rw [same.fibers]
    exact Table.get?_put _ _ _ _
  have saved : ∀ g, w'.saved.get? g = if g = new then some [.fiberStart new]
      else w.saved.get? g := by
    intro g
    rw [same.saved]
    exact Table.get?_put _ _ _ _
  have old : ∀ g r, w.fibers.get? g = some r → g ≠ new := by
    rintro g r hr rfl
    have numbered := h.fit.staffed.numbered new r.standing (congrArg (Option.map _) hr)
    exact absurd numbered (Nat.not_succ_le_self _)
  have mapped : w.Fit → World.Fit { w with kernel := k } := fun fit =>
    fit.untouched ⟨rfl, rfl, rfl, rfl⟩
  have on := Onward.withFiber (mapped h.fit) body usable true
  change Filed (E.hand ⟨{ l with pool := l.pool }, .took n ⟨.fiber new, pin⟩⟩) w'
  refine h.equips (on.fit.untouched same) ⟨?_, fun g gone => ?_⟩
    (fun g other => ⟨fun r hr => ⟨r.handles, ?_⟩, fun there => ?_⟩)
    ⟨⟨_, (records new).trans (if_pos rfl), rfl, rfl, rfl, rfl⟩, ?_⟩
    (fun g => ?_) (fun _ => Nat.le_refl _) fun mem => ?_
  · rw [same.fibers]
    exact Nat.le_succ _
  · rw [records, if_neg, gone.2]
    rintro rfl
    exact absurd gone.1 (Nat.not_succ_le_self _)
  · rw [records, if_neg other, hr]
  · rw [saved, if_neg other]
  · rw [saved, if_pos rfl]
    rfl
  · have covered := h.covered g
    have handles : w'.fibers.handlesOf g = w.fibers.handlesOf g + [new].count g := by
      unfold FiberTable.handlesOf
      rw [records]
      by_cases hg : g = new
      · subst hg
        cases hr : w.fibers.get? new with
        | none => simp
        | some r => exact absurd rfl (old new r hr)
      · rw [if_neg hg, List.count_cons_of_ne (Ne.symm hg), List.count_nil]
        rfl
    rw [Docket.held_hand] at covered ⊢
    rw [handles]
    simp only [Hand.keeps, Grip.loose, Grip.spots, Spot.ofEntry, Spot.held?,
      filterMap_cons_toList, Option.toList_some, Option.toList_none, List.filterMap_nil,
      List.append_nil, List.count_nil] at covered ⊢
    change _ + [new].count g + _ ≤ _
    omega
  · have numbered : new.val ≤ w.fibers.lastId := by
      rcases List.mem_append.mp mem with stocked | serves
      · have stocked : new ∈ (E.hand ⟨l, .took n ⟨.callback body, pin⟩⟩).stock := by
          rw [Docket.stock_hand]
          simpa [Hand.stock, Grip.spent] using stocked
        obtain ⟨r, hr, _⟩ := h.stock new stocked
        exact absurd rfl (old new r hr)
      · exact h.fiber_le (by rw [Docket.fibers_hand]; exact List.mem_append_right _ serves)
    exact absurd numbered (Nat.not_succ_le_self _)

/-- What others do leaves the tasks alone, and what the workers and the queue have handles of. -/
structure Beside (D : Docket) (w w' : World) : Prop where
  fit : w'.Fit
  ages : Ages w w'
  keeps : w.fibers.Keeps D.held w'.fibers
  alone : ∀ p ∈ D.spots, p.2.Alone w w'

theorem Filed.beside (h : Filed D w) (beside : Beside D w w') : Filed D w' := by
  refine h.step (show Touches D D w w' [] [] D.spots from ⟨.refl _, .refl _, beside.fit,
    beside.ages, beside.keeps.covered h.covered, h.numbers, fun _ _ => rfl, beside.alone,
    fun p mem => absurd mem List.not_mem_nil, h.orderly, h.apart,
    fun f r claimed _ hr ended => ?_, fun f mem => .inl mem, fun f mem => .inl mem,
    fun f mem => absurd mem List.not_mem_nil, h.picked⟩)
  obtain ⟨r', hr', main, _, state⟩ := beside.keeps f r claimed hr
  exact ⟨r', hr', state ended, main⟩

namespace Beside

/-- Fibers are resumed that serve no task, or come back, or are made. -/
theorem of_onward (h : Filed D w) (on : Onward w w') (ages : Ages w w')
    (alone : ∀ p ∈ D.spots, p.2.Alone w w') : Beside D w w' :=
  ⟨on.fit, ages, on.evolves.keeps h.covered, alone⟩

/-- Neither fibers nor the frames that they put away tell the worlds apart. -/
theorem of_same (h : Filed D w) (on : Onward w w') (fibers : w'.fibers = w.fibers)
    (saved : w'.saved = w.saved) : Beside D w w' :=
  .of_onward h on (.of_fibers fibers) fun p mem =>
    (h.sound p mem).alone_of_intact fun _ _ => .of_same fibers saved

theorem pushed (h : Filed D w) (frame : Frame) : Beside D w (w.pushed frame) :=
  .of_same h (.pushed h.fit frame) rfl rfl

/-- The fiber that a thread has come to begins. -/
theorem entered (h : Filed D w) (here : w.thread.current = some f) : Beside D w (w.entered f) := by
  have records : ∀ g, (w.entered f).fibers.get? g =
      if g = f then (w.fibers.get? g).map fun r => { r with entry := none }
      else w.fibers.get? g := fun g => FiberTable.get?_modify _ _ _ _
  obtain ⟨q, hq, exec, _⟩ := h.fit.staffed.running _ f (h.fit.thread.aboard.trans here)
  obtain ⟨r, hr, rfl⟩ := FiberTable.get?_of_standing hq
  have away : ∀ g state x, w.Rests g state x → state ≠ .exec → g ≠ f := by
    rintro g state x rests still rfl
    obtain ⟨r', hr', rfl, _⟩ := rests.record
    obtain rfl := Option.some.inj (hr.symm.trans hr')
    exact still exec
  have intact : ∀ g, g ≠ f → Intact g w (w.entered f) := fun g other =>
    ⟨fun r hr => ⟨r.handles, (records g).trans ((if_neg other).trans hr)⟩, fun _ => rfl⟩
  refine .of_onward h (.entered h.fit here) ⟨Nat.le_refl _, fun g gone => ?_⟩ fun p mem => ?_
  · rw [records, gone.2]
    exact ite_self _
  · have sound := h.sound p mem
    obtain ⟨n, p⟩ := p
    cases p with
    | fresh _ _ | ended => trivial
    | waits id _ =>
      obtain ⟨_, _, ⟨state, resumable, rests⟩, _⟩ := sound
      exact intact id (away id state _ rests fun e => Bool.noConfusion (e ▸ resumable))
    | runs id =>
      obtain ⟨r, hr, called, own⟩ := sound.1
      change ∃ r, (w.entered f).fibers.get? id = some r ∧ _
      rw [records]
      split
      · exact ⟨_, congrArg _ hr, called, own⟩
      · exact ⟨r, hr, called, own⟩
    | ready id => exact intact id (away id _ _ sound.2.2 FiberState.noConfusion)
    | parked id =>
      rcases sound.2.2 with gone | rests
      · refine .inr ((records id).trans ?_)
        rw [gone.2]
        exact ite_self _
      · exact .inl (intact id (away id _ _ rests FiberState.noConfusion))

end Beside

/-- The fiber of the entry that a worker has taken may be resumed. -/
theorem Filed.resumable {pin : Option Nat}
    (h : Filed (E.hand ⟨l, .took n ⟨.fiber f, pin⟩⟩) w) :
    (w.fibers.state f).isResumable = true := by
  have sound : (Spot.waits f pin).Sound w (E.tasks n) :=
    h.sound (n, .waits f pin) ((List.Perm.of_eq (E.spots_hand _)).mem_iff.mpr List.mem_cons_self)
  obtain ⟨_, _, ⟨state, resumable, rests⟩, _⟩ := sound
  obtain ⟨r, hr, rfl, _⟩ := rests.record
  rw [FiberTable.state, hr]
  exact resumable

theorem Filed.turnsFiber {pin : Option Nat} (h : Filed (E.hand ⟨l, .took n ⟨.fiber f, pin⟩⟩) w)
    (serves : w.currentScheduler.isSome = true) :
    ∃ w', w.perform (turnFiber l f) = (.done .null, w') ∧
      Filed (E.begins l n f pin false w') w' ∧ w'.schedulers = w.schedulers ∧
      w'.thread.current = some f := by
  have pushed := h.beside (.pushed h (.loopFiber l f))
  have serves' := pushed_currentScheduler h.fit.thread (.loopFiber l f) ▸ serves
  obtain ⟨w', done, filed, schedulers, current⟩ := pushed.begins serves' false
  exact ⟨w', perform_of_ok ((turnFiber_wakes h.resumable).trans done), filed, schedulers, current⟩

/-- The callback runs on a fiber of the pool. -/
theorem Filed.turnsPooled {pin : Option Nat} {body : Body} {pool : List FiberId}
    (h : Filed (E.hand ⟨l, .took n ⟨.callback body, pin⟩⟩) w) (pooled : l.pool = f :: pool)
    (serves : w.currentScheduler.isSome = true) :
    ∃ w', w.perform (turnCallback l body) = (.done .null, w') ∧
      Filed (E.begins { l with pool := pool } n f pin true w') w' ∧
      w'.schedulers = w.schedulers ∧ w'.thread.current = some f := by
  let frame : Frame := .loopCallback { l with pool := pool } f
  obtain ⟨reset, equipped⟩ := (h.beside (.pushed h frame)).pools pooled
  have serves' := pushed_currentScheduler h.fit.thread frame ▸ serves
  obtain ⟨w', done, filed, schedulers, current⟩ := equipped.begins serves' true
  refine ⟨w', perform_of_ok ?_, filed, schedulers, current⟩
  rw [turnCallback, pooled]
  dsimp only
  rw [Act.on_bind_ok (push_on _ _), Act.on_bind_ok reset]
  exact done

/-- The callback runs on a fiber that is made for it. -/
theorem Filed.turnsMade {pin : Option Nat} {body : Body} {usable : Nat}
    (h : Filed (E.hand ⟨l, .took n ⟨.callback body, pin⟩⟩) w) (none : l.pool = [])
    (stack : (w.kernel.mapStack
      ((w.schedulers.get? l.scheduler).getD default).config.stackSize).2 = .ok usable)
    (serves : w.currentScheduler.isSome = true) :
    ∃ w', w.perform (turnCallback l body) = (.done .null, w') ∧
      Filed (E.begins l n ⟨w.fibers.lastId + 1⟩ pin true w') w' ∧
      w'.schedulers = w.schedulers ∧ w'.thread.current = some ⟨w.fibers.lastId + 1⟩ := by
  let new : FiberId := ⟨w.fibers.lastId + 1⟩
  obtain ⟨v, made, quiet⟩ := makeFiber_of_stack stack body true
  have equipped := h.makes quiet
  have pushed := equipped.beside (.pushed equipped (.loopCallback l new))
  have same := quiet.level
  have current : v.currentScheduler = w.currentScheduler := by
    unfold World.currentScheduler
    rw [same.thread, same.schedulers]
    rfl
  have serves' : (v.pushed (.loopCallback l new)).currentScheduler.isSome = true := by
    rw [pushed_currentScheduler equipped.fit.thread, current]
    exact serves
  obtain ⟨w', done, filed, schedulers, current⟩ := pushed.begins serves' true
  refine ⟨w', perform_of_ok ?_, filed, schedulers.trans same.schedulers, current⟩
  rw [turnCallback, none]
  dsimp only
  rw [Act.on_bind_ok (schedulerRecord_on _ _), Act.on_bind_ok made]
  exact (Act.on_bind_ok (push_on _ _)).trans done

end Fibers.Script
