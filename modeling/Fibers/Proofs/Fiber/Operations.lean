import Fibers.Proofs.Fiber.Order

/-!
What the operations on fibers do to the order. Resuming puts a fiber on the chain, handing back
takes one off, and nothing else moves it. For each operation there is an equation for the standing
of every fiber after it, a lemma that it keeps the order, and the list of the states that it
changed.
-/

namespace Fibers.FiberTable

variable {β : Type} {t : FiberTable β} {c g x id : FiberId} {links : List FiberId} {s : Standing}

theorem standing_create (t : FiberTable β) (entry : β) (stack : Nat) (inScheduler : Bool)
    (id : FiberId) :
    (t.create entry stack inScheduler).1.standing id =
      if id = ⟨t.lastId + 1⟩ then some ⟨false, .init, none, none⟩ else t.standing id :=
  standing_add t _ id

theorem standing_createMain (t : FiberTable β) (id : FiberId) :
    t.createMain.1.standing id =
      if id = t.createMain.2 then some ⟨true, .exec, none, none⟩ else t.standing id :=
  standing_add t _ id

theorem add_numbered (t : FiberTable β) (r : FiberRecord β)
    (numbered : ∀ id s, t.standing id = some s → id.val ≤ t.lastId) (id : FiberId) (s : Standing)
    (hs : (t.add r).1.standing id = some s) : id.val ≤ (t.add r).1.lastId := by
  change id.val ≤ t.lastId + 1
  rw [standing_add] at hs
  split at hs
  · next new => exact Nat.le_of_eq (congrArg FiberId.val new)
  · exact Nat.le_succ_of_le (numbered id s hs)

theorem Ordered.create (h : t.Ordered c links) (entry : β) (stack : Nat) (inScheduler : Bool) :
    (t.create entry stack inScheduler).1.Ordered c links := by
  have hnew := h.fresh_not_mem (Nat.lt_succ_self t.lastId)
  refine h.congr ?_ ?_ (add_numbered t _ h.numbered)
  · intro id hid
    rw [standing_create, if_neg]
    rintro rfl
    exact hnew hid
  · intro id s hs hid
    rw [standing_create] at hs
    split at hs
    · obtain rfl := Option.some.inj hs
      exact ⟨rfl, rfl, rfl, nofun⟩
    · exact h.apart id s hs hid

theorem Settled.create (h : t.Settled) (entry : β) (stack : Nat) (inScheduler : Bool) :
    (t.create entry stack inScheduler).1.Settled := by
  refine ⟨?_, add_numbered t _ h.numbered⟩
  intro id s hs
  rw [standing_create] at hs
  split at hs
  · obtain rfl := Option.some.inj hs
    exact ⟨rfl, rfl, rfl, nofun⟩
  · exact h.resting id s hs

/-- The main fiber comes to a thread whose fibers are all at rest. -/
theorem Settled.createMain (h : t.Settled) : t.createMain.1.Ordered t.createMain.2 [] := by
  have main : t.createMain.1.standing t.createMain.2 = some ⟨true, .exec, none, none⟩ := by
    rw [standing_createMain, if_pos rfl]
  refine ⟨.main main rfl rfl, List.nodup_singleton _, ⟨_, main, rfl, rfl⟩, ?_,
    add_numbered t _ h.numbered⟩
  intro id s hs hid
  rw [standing_createMain, if_neg fun e => hid (List.mem_singleton.mpr e)] at hs
  exact h.resting id s hs

/-- The records after `b` was resumed by `a`. -/
theorem get?_depart (t : FiberTable β) {a b : FiberId} (other : b ≠ a) (j : FiberId) :
    (t.depart a b).get? j =
      if j = b then (t.get? j).map fun r => { r with state := .exec, resumer := some a }
      else if j = a then (t.get? j).map fun r => { r with state := .hold, awaiting := some b }
      else t.get? j := by
  unfold depart
  rw [get?_modify, get?_modify]
  by_cases hb : j = b
  · rw [if_pos hb, if_pos hb, if_neg (hb ▸ other)]
  · rw [if_neg hb, if_neg hb]

/-- Control leaves `c` for `x`: the one is on hold until the other, which runs now, hands back. -/
theorem standing_depart (t : FiberTable β) {c x : FiberId} (hne : x ≠ c) (id : FiberId) :
    (t.depart c x).standing id =
      if id = x then (t.standing id).map fun s => { s with state := .exec, resumer := some c }
      else if id = c then (t.standing id).map fun s => { s with state := .hold, awaiting := some x }
      else t.standing id := by
  unfold depart
  rw [standing_modify (g := fun s => { s with state := .exec, resumer := some c }) _ _ _
      fun _ => rfl,
    standing_modify (g := fun s => { s with state := .hold, awaiting := some x }) _ _ _
      fun _ => rfl]
  by_cases hx : id = x
  · rw [if_pos hx, if_pos hx, if_neg (hx ▸ hne)]
  · rw [if_neg hx, if_neg hx]

theorem Ordered.depart (h : t.Ordered c links) (hs : t.standing x = some s)
    (off : x ∉ c :: links) (rest : s.Resting) : (t.depart c x).Ordered x (c :: links) := by
  have hne : x ≠ c := fun e => off (e ▸ List.mem_cons_self)
  obtain ⟨q, hq, exec, _⟩ := h.running
  have atTarget := standing_depart t hne x
  have atCaller := standing_depart t hne c
  rw [if_pos rfl, hs] at atTarget
  rw [if_neg hne.symm, if_pos rfl, hq] at atCaller
  have elsewhere : ∀ id, id ≠ x → id ≠ c → (t.depart c x).standing id = t.standing id := by
    intro id hx hc
    rw [standing_depart t hne, if_neg hx, if_neg hc]
  refine ⟨?_, List.nodup_cons.mpr ⟨off, h.nodup⟩, ⟨_, atTarget, rfl, rest.awaiting⟩, ?_, ?_⟩
  · refine .link atTarget rest.own rfl atCaller rfl rfl (h.waits.congr hq atCaller rfl rfl ?_)
    intro g hg
    refine elsewhere g (fun e => off (e ▸ List.mem_cons_of_mem _ hg)) ?_
    rintro rfl
    exact (List.nodup_cons.mp h.nodup).1 hg
  · intro id s' hs' hid
    obtain ⟨hx, hid⟩ := not_or.mp fun e => hid (List.mem_cons.mpr e)
    rw [elsewhere id hx fun e => hid (e ▸ List.mem_cons_self)] at hs'
    exact h.apart id s' hs' hid
  · intro id s' hs'
    change id.val ≤ t.lastId
    obtain ⟨s, hs⟩ : ∃ s, t.standing id = some s := by
      rw [standing_depart t hne] at hs'
      cases hid : t.standing id with
      | none => simp [hid] at hs'
      | some s => exact ⟨s, rfl⟩
    exact h.numbered id s hs

/-- Control arrives at a fiber that waits for nobody: it is told nothing. -/
theorem transfer_of_standing (source : FiberId) (hs : t.standing id = some s)
    (awaiting : s.awaiting = none) : t.transfer source id = ⟨t, source, id, none⟩ := by
  obtain ⟨r, hr, rfl⟩ := get?_of_standing hs
  have : r.awaiting = none := awaiting
  simp only [transfer, arrive, hr, Option.bind_some, this]

/-- Control arrives at a fiber that waits for `c`: its resume ends, with the state that `c` asked
for. -/
theorem arrive_awaited {u x : FiberRecord β} (hg : t.get? g = some u) (awaits : u.awaiting = some c)
    (hc : t.get? c = some x) :
    t.arrive g =
      ((t.modify g fun r => { r with state := .exec, awaiting := none }).modify c
        fun r => { r with resumer := none, state := x.yielded }, some x.yielded) := by
  simp only [arrive, hg, Option.bind_some, awaits, hc]

/-- Control has come back from `c` to `g`, inside whose resume `c` ran: `g` runs again, and `c` is
left in the state that it asked for. -/
def handedBack (t : FiberTable β) (c g : FiberId) (left : FiberState) : FiberTable β :=
  let asked := t.modify c fun r => { r with yielded := left }
  let back := asked.modify g fun r => { r with state := .exec, awaiting := none }
  back.modify c fun r => { r with resumer := none, state := left }

/-- The records after control came back from `b` to `a`. -/
theorem get?_handedBack (t : FiberTable β) {a b : FiberId} (left : FiberState) (other : a ≠ b)
    (j : FiberId) :
    (t.handedBack b a left).get? j =
      if j = b then
        (t.get? j).map fun r => { r with yielded := left, resumer := none, state := left }
      else if j = a then (t.get? j).map fun r => { r with state := .exec, awaiting := none }
      else t.get? j := by
  unfold handedBack
  rw [get?_modify, get?_modify, get?_modify]
  by_cases hb : j = b
  · rw [if_pos hb, if_pos hb, if_neg (hb ▸ other.symm), if_pos hb, Option.map_map]
    rfl
  · rw [if_neg hb, if_neg hb, if_neg hb]

theorem standing_handedBack (t : FiberTable β) {c g : FiberId} (left : FiberState) (hne : g ≠ c)
    (id : FiberId) :
    (t.handedBack c g left).standing id =
      if id = c then (t.standing id).map fun s => { s with state := left, resumer := none }
      else if id = g then (t.standing id).map fun s => { s with state := .exec, awaiting := none }
      else t.standing id := by
  have asked : (t.modify c fun r => { r with yielded := left }).standing id = t.standing id :=
    standing_modify_same _ _ _ fun _ => rfl
  unfold handedBack
  rw [standing_modify (g := fun s => { s with state := left, resumer := none }) _ _ _ fun _ => rfl,
    standing_modify (g := fun s => { s with state := .exec, awaiting := none }) _ _ _ fun _ => rfl,
    asked]
  by_cases hc : id = c
  · rw [if_pos hc, if_pos hc, if_neg (hc ▸ hne.symm)]
  · rw [if_neg hc, if_neg hc]

/-- Whoever was resumed can hand back, and its resumer is told the state that it asked for. -/
theorem Ordered.handBack_ok (h : t.Ordered c (g :: links)) (left : FiberState) :
    t.handBack c left = .ok ⟨t.handedBack c g left, c, g, some left⟩ := by
  have hne : g ≠ c := fun e => (List.nodup_cons.mp h.nodup).1 (e ▸ List.mem_cons_self)
  cases h.waits with
  | @link _ _ _ s q found own resumed found' hold awaits rest =>
    obtain ⟨r, hr, rfl⟩ := get?_of_standing found
    obtain ⟨u, hu, rfl⟩ := get?_of_standing found'
    have asked : (t.modify c fun r => { r with yielded := left }).get? c =
        some { r with yielded := left } := by
      rw [get?_modify, if_pos rfl, hr]
      rfl
    have resumer : (t.modify c fun r => { r with yielded := left }).get? g = some u := by
      rw [get?_modify, if_neg hne, hu]
    have resumed : (some r).bind (·.resumer) = some g := resumed
    rw [handBack, hr, resumed]
    simp only [transfer, arrive_awaited resumer awaits asked]
    rfl

theorem Ordered.handedBack (h : t.Ordered c (g :: links)) {left : FiberState}
    (hleft : left ≠ .exec) : (t.handedBack c g left).Ordered g links := by
  obtain ⟨hc, nodup⟩ := List.nodup_cons.mp h.nodup
  have hne : g ≠ c := fun e => hc (e ▸ List.mem_cons_self)
  have after := standing_handedBack t left hne
  obtain ⟨u, hu, _, uwaits⟩ := h.running
  cases h.waits with
  | @link _ _ _ s q found own resumed found' hold awaits rest =>
    obtain rfl := Option.some.inj (found.symm.trans hu)
    have atLeft := after c
    have atResumer := after g
    rw [if_pos rfl, found] at atLeft
    rw [if_neg hne, if_pos rfl, found'] at atResumer
    refine ⟨?_, nodup, ⟨_, atResumer, rfl, rfl⟩, ?_, ?_⟩
    · refine rest.congr found' atResumer rfl rfl fun i hi => ?_
      have hi' : i ∈ g :: links := List.mem_cons_of_mem _ hi
      rw [after, if_neg fun e : i = c => hc (e ▸ hi'),
        if_neg fun e : i = g => (List.nodup_cons.mp nodup).1 (e ▸ hi)]
    · intro id s' hs' hid
      by_cases hidc : id = c
      · subst hidc
        rw [atLeft] at hs'
        obtain rfl := Option.some.inj hs'
        exact ⟨own, rfl, uwaits, hleft⟩
      · rw [after, if_neg hidc, if_neg fun e : id = g => hid (e ▸ List.mem_cons_self)] at hs'
        refine h.apart id s' hs' fun hmem => hid ?_
        exact (List.mem_cons.mp hmem).resolve_left hidc
    · intro id s' hs'
      change id.val ≤ t.lastId
      obtain ⟨s, hs⟩ : ∃ s, t.standing id = some s := by
        rw [after] at hs'
        cases hid : t.standing id with
        | none => simp [hid] at hs'
        | some s => exact ⟨s, rfl⟩
      exact h.numbered id s hs

/-- What is done to one fiber at rest, and leaves it so. -/
theorem Ordered.modify_apart (h : t.Ordered c links) (off : id ∉ c :: links)
    {f : FiberRecord β → FiberRecord β} {g : Standing → Standing}
    (hf : ∀ r, (f r).standing = g r.standing) (rest : ∀ s : Standing, s.Resting → (g s).Resting) :
    (t.modify id f).Ordered c links := by
  have after := fun j => standing_modify t id j hf
  refine h.congr (fun j hj => ?_) (fun j s hs hj => ?_) (fun j s hs => ?_)
  · rw [after, if_neg fun e : j = id => off (e ▸ hj)]
  · rw [after] at hs
    split at hs
    · obtain ⟨q, hq, rfl⟩ := Option.map_eq_some_iff.mp hs
      exact rest q (h.apart j q hq hj)
    · exact h.apart j s hs hj
  · change j.val ≤ t.lastId
    rw [after] at hs
    split at hs
    · obtain ⟨q, hq, rfl⟩ := Option.map_eq_some_iff.mp hs
      exact h.numbered j q hq
    · exact h.numbered j s hs

/-- What leaves the standing of all fibers as it is. -/
theorem Ordered.of_same (h : t.Ordered c links) {t' : FiberTable β}
    (same : ∀ id, t'.standing id = t.standing id) (lastId : t'.lastId = t.lastId) :
    t'.Ordered c links := by
  refine h.congr (fun id _ => same id) (fun id s hs => ?_) (fun id s hs => ?_)
  · exact h.apart id s (same id ▸ hs)
  · exact lastId ▸ h.numbered id s (same id ▸ hs)

theorem Settled.of_same (h : t.Settled) {t' : FiberTable β}
    (same : ∀ id, t'.standing id = t.standing id) (lastId : t'.lastId = t.lastId) : t'.Settled :=
  ⟨fun id s hs => h.resting id s (same id ▸ hs),
    fun id s hs => lastId ▸ h.numbered id s (same id ▸ hs)⟩

theorem standing_takeEntry (t : FiberTable β) (x id : FiberId) :
    (t.takeEntry x).1.standing id = t.standing id :=
  standing_modify_same _ _ _ fun _ => rfl

/-- A fiber that a new body was installed in: it is as if it had never run. -/
def restarted (t : FiberTable β) (id : FiberId) (entry : β) : FiberTable β :=
  t.modify id fun r => { r with entry := some entry, state := .init, awaiting := none }

theorem get?_restarted (t : FiberTable β) (id : FiberId) (entry : β) (j : FiberId) :
    (t.restarted id entry).get? j =
      if j = id then (t.get? id).map fun r =>
        { r with entry := some entry, state := .init, awaiting := none }
      else t.get? j := by
  rw [restarted, get?_modify]
  split
  · next same => rw [same]
  · rfl

theorem standing_restarted (t : FiberTable β) (x : FiberId) (entry : β) (id : FiberId) :
    (t.restarted x entry).standing id =
      if id = x then (t.standing id).map fun s => { s with state := .init, awaiting := none }
      else t.standing id :=
  standing_modify (g := fun s => { s with state := .init, awaiting := none }) _ _ _ fun _ => rfl

/-- A reset that is let through finds a fiber that has ended or not begun. -/
theorem of_reset_ok {entry : β} {t' : FiberTable β} (h : t.reset id entry = .ok t') :
    t' = t.restarted id entry ∧
      ∃ s, t.standing id = some s ∧ s.state.isResettable = true ∧ s.isMain = false := by
  unfold reset resetFault? at h
  split at h
  · cases h
  · next hfault =>
    refine ⟨(Except.ok.inj h).symm, ?_⟩
    split at hfault
    · cases hfault
    · next r hr =>
      split at hfault
      · cases hfault
      · next hstate =>
        rw [Bool.or_eq_true, not_or, Bool.not_eq_true, Bool.not_eq_false',
          Bool.not_eq_true] at hstate
        exact ⟨r.standing, Option.map_eq_some_iff.mpr ⟨r, hr, rfl⟩, hstate⟩

theorem Ordered.restarted (h : t.Ordered c links) (entry : β) (hs : t.standing id = some s)
    (state : s.state.isResettable = true) : (t.restarted id entry).Ordered c links :=
  h.modify_apart (h.resting_of_resettable hs state).1
    (g := fun s => { s with state := .init, awaiting := none }) (fun _ => rfl)
    fun _ rest => ⟨rest.own, rest.resumer, rfl, nofun⟩

theorem Settled.restarted (h : t.Settled) (entry : β) (id : FiberId) :
    (t.restarted id entry).Settled := by
  constructor
  · intro j s hs
    rw [standing_restarted] at hs
    split at hs
    · obtain ⟨q, hq, rfl⟩ := Option.map_eq_some_iff.mp hs
      have rest := h.resting j q hq
      exact ⟨rest.own, rest.resumer, rfl, nofun⟩
    · exact h.resting j s hs
  · intro j s hs
    change j.val ≤ t.lastId
    rw [standing_restarted] at hs
    split at hs
    · obtain ⟨q, hq, rfl⟩ := Option.map_eq_some_iff.mp hs
      exact h.numbered j q hq
    · exact h.numbered j s hs

/-- The table once the thread that runs `current` has its main fiber. -/
def seen (t : FiberTable β) (current : Option FiberId) : FiberTable β := (t.currentOrMain current).1

/-- The fiber on whose stack the thread that runs `current` is. -/
def runner (t : FiberTable β) (current : Option FiberId) : FiberId := (t.currentOrMain current).2

/-- The order of the fibers of a thread, before and after it got its main fiber. -/
def Orderly (t : FiberTable β) (current : Option FiberId) (links : List FiberId) : Prop :=
  match current with
  | some c => t.Ordered c links
  | none => t.Settled ∧ links = []

namespace Orderly

variable {current : Option FiberId}

theorem cases (h : t.Orderly current links) :
    current = none ∧ links = [] ∧ t.Settled ∨ ∃ c, current = some c ∧ t.Ordered c links := by
  cases current with
  | some c => exact .inr ⟨c, rfl, h⟩
  | none => exact .inl ⟨rfl, h.2, h.1⟩

theorem seen (h : t.Orderly current links) :
    (t.seen current).Ordered (t.runner current) links := by
  cases current with
  | some c => exact h
  | none =>
    obtain ⟨settled, rfl⟩ := h
    exact settled.createMain

/-- The main fiber that a thread gets takes no fiber's place. -/
theorem standing_seen (h : t.Orderly current links) (hs : t.standing id = some s) :
    (t.seen current).standing id = some s := by
  cases current with
  | some c => exact hs
  | none =>
    change t.createMain.1.standing id = some s
    rw [standing_createMain, if_neg, hs]
    rintro rfl
    exact absurd (h.1.numbered _ _ hs) (Nat.not_succ_le_self _)

theorem numbered (h : t.Orderly current links) (hs : t.standing id = some s) :
    id.val ≤ t.lastId := by
  rcases h.cases with ⟨_, _, settled⟩ | ⟨_, _, ordered⟩
  · exact settled.numbered id s hs
  · exact ordered.numbered id s hs

theorem create (h : t.Orderly current links) (entry : β) (stack : Nat) (inScheduler : Bool) :
    (t.create entry stack inScheduler).1.Orderly current links := by
  cases current with
  | some c => exact Ordered.create h entry stack inScheduler
  | none => exact ⟨h.1.create entry stack inScheduler, h.2⟩

theorem restarted (h : t.Orderly current links) (entry : β) (hs : t.standing id = some s)
    (state : s.state.isResettable = true) : (t.restarted id entry).Orderly current links := by
  cases current with
  | some c => exact Ordered.restarted h entry hs state
  | none => exact ⟨h.1.restarted entry id, h.2⟩

theorem of_same (h : t.Orderly current links) {t' : FiberTable β}
    (same : ∀ id, t'.standing id = t.standing id) (lastId : t'.lastId = t.lastId) :
    t'.Orderly current links := by
  cases current with
  | some c => exact Ordered.of_same h same lastId
  | none => exact ⟨h.1.of_same same lastId, h.2⟩

/-- A thread is in a fiber of its own when somebody waits for that fiber. -/
theorem inFiber_iff (h : t.Orderly current links) :
    t.inFiber current = true ↔ ∃ c g rest, current = some c ∧ links = g :: rest := by
  cases current with
  | none => exact ⟨nofun, fun ⟨_, _, _, e, _⟩ => nomatch e⟩
  | some c =>
    cases (show t.Ordered c links from h).waits with
    | @main _ s found main _ =>
      obtain ⟨r, hr, rfl⟩ := get?_of_standing found
      have : r.isMain = true := main
      simp [inFiber, hr, this]
    | @link _ g links s q found own _ _ _ _ _ =>
      obtain ⟨r, hr, rfl⟩ := get?_of_standing found
      have : r.isMain = false := own
      simp [inFiber, hr, this]

/-- A resume that is let through, of a fiber that waits for nobody, finds it at rest and starts or
continues it. -/
theorem of_resume_ok (h : t.Orderly current links) {hasScheduler : Bool} {tr : Transfer β}
    (accepted : t.resume current x hasScheduler = .ok tr)
    (free : ∀ s, t.standing x = some s → s.awaiting = none) :
    tr = ⟨(t.seen current).depart (t.runner current) x, t.runner current, x, none⟩ ∧
      ∃ s, t.standing x = some s ∧ s.state.isResumable = true ∧ s.Resting ∧
        x ∉ t.runner current :: links := by
  unfold resume resumeFault? at accepted
  split at accepted
  · cases accepted
  · next hfault =>
    obtain ⟨r, hr, state⟩ : ∃ r, t.get? x = some r ∧ r.state.isResumable = true := by
      split at hfault
      · cases hfault
      · next r hr =>
        split at hfault
        · cases hfault
        · next hstate =>
          rw [Bool.or_eq_true, not_or, Bool.not_eq_true, Bool.not_eq_false'] at hstate
          exact ⟨r, hr, hstate.1⟩
    have hs : t.standing x = some r.standing := Option.map_eq_some_iff.mpr ⟨r, hr, rfl⟩
    obtain ⟨off, rest⟩ := h.seen.resting_of_resumable (h.standing_seen hs) state (free _ hs)
    have hne : x ≠ t.runner current := fun e => off (e ▸ List.mem_cons_self)
    refine ⟨?_, _, hs, state, rest, off⟩
    split at accepted
    · cases accepted
    · have told := standing_depart (t.seen current) hne x
      rw [if_pos rfl, h.standing_seen hs] at told
      have ok : tr = ((t.seen current).depart (t.runner current) x).transfer (t.runner current) x :=
        (Except.ok.inj accepted).symm
      rw [ok, transfer_of_standing _ told rest.awaiting]

theorem resume_step (h : t.Orderly current links) (hs : t.standing x = some s) (rest : s.Resting)
    (off : x ∉ t.runner current :: links) :
    ((t.seen current).depart (t.runner current) x).Orderly (some x) (t.runner current :: links) :=
  h.seen.depart (h.standing_seen hs) off rest

end Orderly

/-- A fiber that was in some state, or did not exist, is in a state now. -/
structure Change where
  fiber : FiberId
  was : Option FiberState
  now : FiberState

/-- Some fibers changed their states, and no others did. -/
structure Changed (t t' : FiberTable β) (changes : List Change) : Prop where
  made : ∀ e ∈ changes, t.state? e.fiber = e.was ∧ t'.state? e.fiber = some e.now
  others : ∀ id, (∀ e ∈ changes, id ≠ e.fiber) → t'.state? id = t.state? id

theorem state?_of_standing (hs : t.standing id = some s) : t.state? id = some s.state := by
  rw [state?, hs]
  rfl

theorem state?_congr {t' : FiberTable β} (same : t'.standing id = t.standing id) :
    t'.state? id = t.state? id := by
  rw [state?, same]
  rfl

namespace Changed

theorem of_same {t' : FiberTable β} (same : ∀ id, t'.standing id = t.standing id) :
    Changed t t' [] :=
  ⟨fun _ he => (List.not_mem_nil he).elim, fun id _ => state?_congr (same id)⟩

theorem from_same {u t' : FiberTable β} {changes : List Change} (h : Changed t t' changes)
    (same : ∀ id, t.standing id = u.standing id) : Changed u t' changes := by
  refine ⟨fun e he => ⟨?_, (h.made e he).2⟩, fun id hid => ?_⟩
  · rw [← state?_congr (same e.fiber), (h.made e he).1]
  · rw [← state?_congr (same id), h.others id hid]

theorem create (h : ∀ id s, t.standing id = some s → id.val ≤ t.lastId) (entry : β) (stack : Nat)
    (inScheduler : Bool) :
    Changed t (t.create entry stack inScheduler).1 [⟨⟨t.lastId + 1⟩, none, .init⟩] := by
  have after := standing_create t entry stack inScheduler
  constructor
  · intro e he
    obtain rfl := List.mem_singleton.mp he
    refine ⟨?_, state?_of_standing ((after _).trans (if_pos rfl))⟩
    cases hs : t.standing ⟨t.lastId + 1⟩ with
    | none => rw [state?, hs]; rfl
    | some s => exact absurd (h _ s hs) (Nat.not_succ_le_self _)
  · intro id hid
    exact state?_congr ((after id).trans (if_neg (hid _ List.mem_cons_self)))

theorem depart (h : t.Ordered c links) (hs : t.standing x = some s) (hne : x ≠ c) :
    Changed t (t.depart c x) [⟨c, some .exec, .hold⟩, ⟨x, some s.state, .exec⟩] := by
  have after := standing_depart t hne
  obtain ⟨q, hq, exec, _⟩ := h.running
  constructor
  · intro e he
    rcases List.mem_cons.mp he with rfl | he
    · refine ⟨by rw [state?_of_standing hq, exec], ?_⟩
      exact state?_of_standing (s := { q with state := .hold, awaiting := some x })
        (by rw [after, if_neg hne.symm, if_pos rfl, hq]; rfl)
    · obtain rfl := List.mem_singleton.mp he
      refine ⟨state?_of_standing hs, ?_⟩
      exact state?_of_standing (s := { s with state := .exec, resumer := some c })
        (by rw [after, if_pos rfl, hs]; rfl)
  · intro id hid
    have hc : id ≠ c := hid _ List.mem_cons_self
    have hx : id ≠ x := hid _ (List.mem_cons_of_mem _ List.mem_cons_self)
    exact state?_congr (by rw [after, if_neg hx, if_neg hc])

theorem handedBack (h : t.Ordered c (g :: links)) (left : FiberState) :
    Changed t (t.handedBack c g left) [⟨c, some .exec, left⟩, ⟨g, some .hold, .exec⟩] := by
  have hne : g ≠ c := fun e => (List.nodup_cons.mp h.nodup).1 (e ▸ List.mem_cons_self)
  have after := standing_handedBack t left hne
  obtain ⟨q, hq, exec, _⟩ := h.running
  obtain ⟨s, hs, hold, _⟩ := h.waits.held List.mem_cons_self
  constructor
  · intro e he
    rcases List.mem_cons.mp he with rfl | he
    · refine ⟨by rw [state?_of_standing hq, exec], ?_⟩
      exact state?_of_standing (s := { q with state := left, resumer := none })
        (by rw [after, if_pos rfl, hq]; rfl)
    · obtain rfl := List.mem_singleton.mp he
      refine ⟨by rw [state?_of_standing hs, hold], ?_⟩
      exact state?_of_standing (s := { s with state := .exec, awaiting := none })
        (by rw [after, if_neg hne, if_pos rfl, hs]; rfl)
  · intro id hid
    have hc : id ≠ c := hid _ List.mem_cons_self
    have hg : id ≠ g := hid _ (List.mem_cons_of_mem _ List.mem_cons_self)
    exact state?_congr (by rw [after, if_neg hc, if_neg hg])

theorem restarted (hs : t.standing id = some s) (entry : β) :
    Changed t (t.restarted id entry) [⟨id, some s.state, .init⟩] := by
  have after := standing_restarted t id entry
  constructor
  · intro e he
    obtain rfl := List.mem_singleton.mp he
    refine ⟨state?_of_standing hs, ?_⟩
    exact state?_of_standing (s := { s with state := .init, awaiting := none })
      (by rw [after, if_pos rfl, hs]; rfl)
  · intro j hj
    exact state?_congr ((after j).trans (if_neg (hj _ List.mem_cons_self)))

end Changed

end Fibers.FiberTable
