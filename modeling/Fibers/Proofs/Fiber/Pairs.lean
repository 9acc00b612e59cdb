import Fibers.Proofs.Fiber.Operations
import Mathlib.Logic.Function.Basic

/-!
Resumes in progress pair fibers off: one that waits and one that it resumed. `Paired` says that the
two records of a pair agree, that the first is on hold, and that the second runs or waits in a
resume of its own. Where the chain of `Ordered` is that of one thread, pairs say nothing of where
they belong, so they hold for the fibers of several threads at once; `Staffed` adds which fibers the
threads are on. A fiber that has ended is in no pair, and all operations but a reset leave its
record as it is.
-/

namespace Fibers

variable {β : Type}

/-- What becomes of a record where no body is installed: that of a fiber which has ended stays. -/
structure FiberRecord.Evolves (r r' : FiberRecord β) : Prop where
  handles : r'.handles = r.handles
  main : r'.isMain = r.isMain
  ended : r.state.isTerminal = true → r' = r

theorem FiberRecord.Evolves.refl (r : FiberRecord β) : r.Evolves r := ⟨rfl, rfl, fun _ => rfl⟩

theorem FiberRecord.Evolves.trans {q r p : FiberRecord β} (h : q.Evolves r) (k : r.Evolves p) :
    q.Evolves p where
  handles := k.handles.trans h.handles
  main := k.main.trans h.main
  ended hq := by
    obtain rfl := h.ended hq
    exact k.ended hq

namespace FiberTable

variable {t t' : FiberTable β} {c f g x id : FiberId} {s : Standing}

/-- The resumes in progress pair fibers off. -/
structure Paired (t : FiberTable β) : Prop where
  waiting : ∀ f g s, t.standing f = some s → s.awaiting = some g →
    s.state = .hold ∧ ∃ q, t.standing g = some q ∧ q.resumer = some f
  resumed : ∀ f g q, t.standing g = some q → q.resumer = some f →
    (q.state = .exec ∨ q.awaiting ≠ none) ∧ ∃ s, t.standing f = some s ∧ s.awaiting = some g
  numbered : ∀ id s, t.standing id = some s → id.val ≤ t.lastId

/-- The fiber is in execution. -/
def Runs (t : FiberTable β) (c : FiberId) : Prop :=
  ∃ s, t.standing c = some s ∧ s.state = .exec ∧ s.awaiting = none

namespace Paired

/-- A fiber that neither runs nor waits in a resume is in no pair. -/
theorem unresumed (h : t.Paired) (hs : t.standing id = some s) (still : s.state ≠ .exec)
    (free : s.awaiting = none) : s.resumer = none := by
  cases hr : s.resumer with
  | none => rfl
  | some f =>
    rcases (h.resumed f id s hs hr).1 with runs | waits
    · exact absurd runs still
    · exact absurd free waits

theorem unwaiting (h : t.Paired) (hs : t.standing id = some s) (other : s.state ≠ .hold) :
    s.awaiting = none := by
  cases ha : s.awaiting with
  | none => rfl
  | some g => exact absurd (h.waiting id g s hs ha).1 other

theorem unwaiting_of_ended (h : t.Paired) {r : FiberRecord β} (hr : t.get? id = some r)
    (ended : r.state.isTerminal = true) : r.awaiting = none := by
  refine h.unwaiting (congrArg (Option.map _) hr) fun hold => ?_
  rw [show r.state = .hold from hold] at ended
  cases ended

/-- What is added stands alone. -/
theorem add (h : t.Paired) (r : FiberRecord β) (resumer : r.resumer = none)
    (awaiting : r.awaiting = none) : (t.add r).1.Paired := by
  have after := standing_add t r
  have old : ∀ id s, t.standing id = some s → (t.add r).1.standing id = some s := by
    intro id s hs
    rw [after, if_neg, hs]
    rintro rfl
    exact absurd (h.numbered _ s hs) (Nat.not_succ_le_self _)
  refine ⟨fun f g s hs waits => ?_, fun f g q hq called => ?_, add_numbered t r h.numbered⟩
  · rw [after] at hs
    split at hs
    · obtain rfl := Option.some.inj hs
      exact nomatch awaiting.symm.trans waits
    · obtain ⟨hold, q, hq, resumer⟩ := h.waiting f g s hs waits
      exact ⟨hold, q, old g q hq, resumer⟩
  · rw [after] at hq
    split at hq
    · obtain rfl := Option.some.inj hq
      exact nomatch resumer.symm.trans called
    · obtain ⟨busy, s, hs, awaits⟩ := h.resumed f g q hq called
      exact ⟨busy, s, old f s hs, awaits⟩

/-- Fibers that are in no pair may go. -/
theorem of_fewer (h : t.Paired) (lastId : t'.lastId = t.lastId)
    (fewer : ∀ id, t'.standing id = t.standing id ∨ t'.standing id = none ∧
      ∀ s, t.standing id = some s → s.resumer = none ∧ s.awaiting = none) : t'.Paired := by
  have back : ∀ {id s}, t'.standing id = some s → t.standing id = some s := by
    intro id s hs
    rcases fewer id with same | ⟨gone, _⟩
    · rw [← same, hs]
    · exact nomatch hs.symm.trans gone
  refine ⟨fun f g s hs waits => ?_, fun f g q hq called => ?_, fun id s hs => ?_⟩
  · obtain ⟨hold, q, hq, resumer⟩ := h.waiting f g s (back hs) waits
    refine ⟨hold, q, ?_, resumer⟩
    rcases fewer g with same | ⟨_, free⟩
    · rw [same, hq]
    · exact nomatch (free q hq).1.symm.trans resumer
  · obtain ⟨busy, s, hs, awaits⟩ := h.resumed f g q (back hq) called
    refine ⟨busy, s, ?_, awaits⟩
    rcases fewer f with same | ⟨_, free⟩
    · rw [same, hs]
    · exact nomatch (free s hs).2.symm.trans awaits
  · rw [lastId]
    exact h.numbered id s (back hs)

/-- A change of one fiber that is in no pair, and is in none afterwards. -/
theorem modify_apart (h : t.Paired) (hs : t.standing id = some s) (resumer : s.resumer = none)
    (awaiting : s.awaiting = none) {k : FiberRecord β → FiberRecord β}
    {m : Standing → Standing} (hk : ∀ r, (k r).standing = m r.standing)
    (resumer' : (m s).resumer = none) (awaiting' : (m s).awaiting = none) :
    (t.modify id k).Paired := by
  have after := fun j => standing_modify t id j hk
  have self : (t.modify id k).standing id = some (m s) := by rw [after, if_pos rfl, hs]; rfl
  have others : ∀ j, j ≠ id → (t.modify id k).standing j = t.standing j := by
    intro j hj
    rw [after, if_neg hj]
  refine ⟨fun f g q hq waits => ?_, fun f g q hq called => ?_, fun j q hq => ?_⟩
  · by_cases hf : f = id
    · subst hf
      obtain rfl := Option.some.inj (self.symm.trans hq)
      exact nomatch awaiting'.symm.trans waits
    · obtain ⟨hold, y, hy, resumed⟩ := h.waiting f g q (others f hf ▸ hq) waits
      refine ⟨hold, y, (others g ?_).trans hy, resumed⟩
      rintro rfl
      obtain rfl := Option.some.inj (hs.symm.trans hy)
      exact nomatch resumer.symm.trans resumed
  · by_cases hg : g = id
    · subst hg
      obtain rfl := Option.some.inj (self.symm.trans hq)
      exact nomatch resumer'.symm.trans called
    · obtain ⟨busy, y, hy, awaits⟩ := h.resumed f g q (others g hg ▸ hq) called
      refine ⟨busy, y, (others f ?_).trans hy, awaits⟩
      rintro rfl
      obtain rfl := Option.some.inj (hs.symm.trans hy)
      exact nomatch awaiting.symm.trans awaits
  · by_cases hj : j = id
    · exact h.numbered j s (hj ▸ hs)
    · exact h.numbered j q (others j hj ▸ hq)

/-- A resume makes a pair of the fiber that runs and one that is in none. -/
theorem depart (h : t.Paired) (runs : t.Runs c) (hs : t.standing x = some s)
    (resumable : s.state.isResumable = true) (free : s.awaiting = none) :
    (t.depart c x).Paired := by
  obtain ⟨q, hq, exec, unwaiting⟩ := runs
  have still : s.state ≠ .exec := fun e => by rw [e] at resumable; cases resumable
  have alone : s.resumer = none := h.unresumed hs still free
  have hne : x ≠ c := by
    rintro rfl
    obtain rfl := Option.some.inj (hs.symm.trans hq)
    exact still exec
  have after := standing_depart t hne
  have atTarget := after x
  have atCaller := after c
  rw [if_pos rfl, hs] at atTarget
  rw [if_neg hne.symm, if_pos rfl, hq] at atCaller
  have others : ∀ id, id ≠ x → id ≠ c → (t.depart c x).standing id = t.standing id := by
    intro id hx hc
    rw [after, if_neg hx, if_neg hc]
  refine ⟨fun f g r hr waits => ?_, fun f g r hr called => ?_, fun id r hr => ?_⟩
  · by_cases hfx : f = x
    · subst hfx
      obtain rfl := Option.some.inj (atTarget.symm.trans hr)
      exact nomatch free.symm.trans waits
    by_cases hfc : f = c
    · subst hfc
      obtain rfl := Option.some.inj (atCaller.symm.trans hr)
      obtain rfl := Option.some.inj waits
      exact ⟨rfl, _, atTarget, rfl⟩
    · obtain ⟨hold, y, hy, resumed⟩ := h.waiting f g r (others f hfx hfc ▸ hr) waits
      refine ⟨hold, ?_⟩
      have hgx : g ≠ x := by
        rintro rfl
        obtain rfl := Option.some.inj (hs.symm.trans hy)
        exact nomatch alone.symm.trans resumed
      by_cases hgc : g = c
      · subst hgc
        obtain rfl := Option.some.inj (hq.symm.trans hy)
        exact ⟨_, atCaller, resumed⟩
      · exact ⟨y, (others g hgx hgc).trans hy, resumed⟩
  · by_cases hgx : g = x
    · subst hgx
      obtain rfl := Option.some.inj (atTarget.symm.trans hr)
      obtain rfl := Option.some.inj called
      exact ⟨.inl rfl, _, atCaller, rfl⟩
    -- Whoever waits for another fiber is neither the one that runs nor the one that is resumed.
    have elsewhere : ∀ {f y}, t.standing f = some y → y.awaiting = some g →
        (t.depart c x).standing f = some y := by
      intro f y hy awaits
      refine (others f ?_ ?_).trans hy
      · rintro rfl
        obtain rfl := Option.some.inj (hs.symm.trans hy)
        exact nomatch free.symm.trans awaits
      · rintro rfl
        obtain rfl := Option.some.inj (hq.symm.trans hy)
        exact nomatch unwaiting.symm.trans awaits
    by_cases hgc : g = c
    · subst hgc
      obtain rfl := Option.some.inj (atCaller.symm.trans hr)
      obtain ⟨_, y, hy, awaits⟩ := h.resumed f g q hq called
      exact ⟨.inr nofun, y, elsewhere hy awaits, awaits⟩
    · obtain ⟨busy, y, hy, awaits⟩ := h.resumed f g r (others g hgx hgc ▸ hr) called
      exact ⟨busy, y, elsewhere hy awaits, awaits⟩
  · change id.val ≤ t.lastId
    rw [after] at hr
    cases hid : t.standing id with
    | none => simp [hid] at hr
    | some s => exact h.numbered id s hid

/-- To hand back is to part from the one that waits. -/
theorem handedBack (h : t.Paired) (runs : t.Runs c) (hs : t.standing c = some s)
    (called : s.resumer = some g) (left : FiberState) : (t.handedBack c g left).Paired := by
  obtain ⟨q, hq, exec, unwaiting⟩ := runs
  obtain rfl := Option.some.inj (hs.symm.trans hq)
  obtain ⟨_, u, hu, awaits⟩ := h.resumed g c s hs called
  have hne : g ≠ c := by
    rintro rfl
    obtain rfl := Option.some.inj (hs.symm.trans hu)
    exact nomatch unwaiting.symm.trans awaits
  have after := standing_handedBack t left hne
  have atLeft := after c
  have atResumer := after g
  rw [if_pos rfl, hs] at atLeft
  rw [if_neg hne, if_pos rfl, hu] at atResumer
  have others : ∀ id, id ≠ c → id ≠ g → (t.handedBack c g left).standing id = t.standing id := by
    intro id hc hg
    rw [after, if_neg hc, if_neg hg]
  refine ⟨fun f k r hr waits => ?_, fun f k r hr resumed => ?_, fun id r hr => ?_⟩
  · by_cases hfc : f = c
    · subst hfc
      obtain rfl := Option.some.inj (atLeft.symm.trans hr)
      exact nomatch unwaiting.symm.trans waits
    by_cases hfg : f = g
    · subst hfg
      obtain rfl := Option.some.inj (atResumer.symm.trans hr)
      cases waits
    obtain ⟨hold, y, hy, resumed⟩ := h.waiting f k r (others f hfc hfg ▸ hr) waits
    refine ⟨hold, ?_⟩
    have hkc : k ≠ c := by
      rintro rfl
      obtain rfl := Option.some.inj (hs.symm.trans hy)
      exact hfg (Option.some.inj (resumed.symm.trans called))
    by_cases hkg : k = g
    · subst hkg
      obtain rfl := Option.some.inj (hu.symm.trans hy)
      exact ⟨_, atResumer, resumed⟩
    · exact ⟨y, (others k hkc hkg).trans hy, resumed⟩
  · by_cases hkc : k = c
    · subst hkc
      obtain rfl := Option.some.inj (atLeft.symm.trans hr)
      cases resumed
    -- Nobody else waited for the fiber that is left or inside the resume that ends.
    have elsewhere : ∀ {f y}, t.standing f = some y → y.awaiting = some k →
        (t.handedBack c g left).standing f = some y := by
      intro f y hy awaiting
      refine (others f ?_ ?_).trans hy
      · rintro rfl
        obtain rfl := Option.some.inj (hs.symm.trans hy)
        exact nomatch unwaiting.symm.trans awaiting
      · rintro rfl
        obtain rfl := Option.some.inj (hu.symm.trans hy)
        exact hkc (Option.some.inj (awaiting.symm.trans awaits))
    by_cases hkg : k = g
    · subst hkg
      obtain rfl := Option.some.inj (atResumer.symm.trans hr)
      obtain ⟨_, y, hy, awaiting⟩ := h.resumed f k u hu resumed
      exact ⟨.inl rfl, y, elsewhere hy awaiting, awaiting⟩
    · obtain ⟨busy, y, hy, awaiting⟩ := h.resumed f k r (others k hkc hkg ▸ hr) resumed
      exact ⟨busy, y, elsewhere hy awaiting, awaiting⟩
  · change id.val ≤ t.lastId
    rw [after] at hr
    cases hid : t.standing id with
    | none => simp [hid] at hr
    | some s => exact h.numbered id s hid

end Paired

/-- No fiber is lost, and each evolves. -/
def Evolves (t t' : FiberTable β) : Prop :=
  ∀ id r, t.get? id = some r → ∃ r', t'.get? id = some r' ∧ r.Evolves r'

namespace Evolves

theorem trans {u : FiberTable β} (h : t.Evolves t') (k : t'.Evolves u) : t.Evolves u := by
  intro id r hr
  obtain ⟨q, hq, first⟩ := h id r hr
  obtain ⟨p, hp, second⟩ := k id q hq
  exact ⟨p, hp, first.trans second⟩

/-- A change of a fiber that has not ended. -/
theorem modify (t : FiberTable β) (id : FiberId) {k : FiberRecord β → FiberRecord β}
    (lasts : ∀ r, t.get? id = some r → r.state.isTerminal = false)
    (handles : ∀ r, (k r).handles = r.handles) (main : ∀ r, (k r).isMain = r.isMain) :
    t.Evolves (t.modify id k) := by
  intro j r hr
  rw [get?_modify]
  split
  · next hj =>
    subst hj
    refine ⟨k r, by rw [hr]; rfl, handles r, main r, fun ended => ?_⟩
    rw [lasts r hr] at ended
    cases ended
  · exact ⟨r, hr, .refl r⟩

theorem add (numbered : ∀ id s, t.standing id = some s → id.val ≤ t.lastId)
    (r : FiberRecord β) : t.Evolves (t.add r).1 := by
  intro id q hq
  refine ⟨q, ?_, .refl q⟩
  change (t.records.put _ r).get? id = some q
  rw [Table.get?_put, if_neg]
  · exact hq
  · rintro rfl
    have known : t.standing ⟨t.lastId + 1⟩ = some q.standing := congrArg (Option.map _) hq
    exact absurd (numbered _ _ known) (Nat.not_succ_le_self _)

end Evolves

/-- The fibers that the threads are on run, each on one thread, and who has ended holds no body. -/
structure Staffed (t : FiberTable β) (on : Nat → Option FiberId) : Prop extends Paired t where
  running : ∀ i c, on i = some c → t.Runs c
  apart : ∀ i j c, on i = some c → on j = some c → i = j
  begun : ∀ id r, t.get? id = some r → r.state.isTerminal = true → r.entry = none

namespace Staffed

variable {on : Nat → Option FiberId} {i : Nat}

/-- The other threads stay where they are, one thread moves to a fiber that is made to run. -/
theorem moved (h : t.Staffed on) (paired : t'.Paired) (there : t'.Runs x)
    (left : ∀ j d, j ≠ i → on j = some d → d ≠ x ∧ t'.standing d = t.standing d)
    (begun : ∀ id r, t'.get? id = some r → r.state.isTerminal = true → r.entry = none) :
    t'.Staffed (Function.update on i (some x)) where
  toPaired := paired
  running j d hd := by
    by_cases hj : j = i
    · rw [hj, Function.update_self] at hd
      obtain rfl := Option.some.inj hd
      exact there
    · rw [Function.update_of_ne hj] at hd
      obtain ⟨s, hs, runs⟩ := h.running j d hd
      exact ⟨s, (left j d hj hd).2.trans hs, runs⟩
  apart j k d hj hk := by
    by_cases ej : j = i
    · by_cases ek : k = i
      · exact ej.trans ek.symm
      · rw [ej, Function.update_self] at hj
        rw [Function.update_of_ne ek] at hk
        exact absurd (Option.some.inj hj).symm (left k d ek hk).1
    · rw [Function.update_of_ne ej] at hj
      by_cases ek : k = i
      · rw [ek, Function.update_self] at hk
        exact absurd (Option.some.inj hk).symm (left j d ej hj).1
      · rw [Function.update_of_ne ek] at hk
        exact h.apart j k d hj hk
  begun := begun

theorem begun_modify (h : t.Staffed on) (id : FiberId) {k : FiberRecord β → FiberRecord β}
    (begun : ∀ r, t.get? id = some r → (k r).state.isTerminal = true → (k r).entry = none) :
    ∀ j r, (t.modify id k).get? j = some r → r.state.isTerminal = true → r.entry = none := by
  intro j r hr
  rw [get?_modify] at hr
  split at hr
  · next hj =>
    subst hj
    obtain ⟨q, hq, rfl⟩ := Option.map_eq_some_iff.mp hr
    exact begun q hq
  · exact h.begun j r hr

/-- A fiber that is added has not ended, and no thread is on it. -/
theorem add (h : t.Staffed on) (r : FiberRecord β) (resumer : r.resumer = none)
    (awaiting : r.awaiting = none) (lasts : r.state.isTerminal = false) :
    (t.add r).1.Staffed on where
  toPaired := h.toPaired.add r resumer awaiting
  running i c hc := by
    obtain ⟨s, hs, runs⟩ := h.running i c hc
    refine ⟨s, ?_, runs⟩
    rw [standing_add, if_neg, hs]
    rintro rfl
    exact absurd (h.numbered _ s hs) (Nat.not_succ_le_self _)
  apart := h.apart
  begun id q hq ended := by
    change (t.records.put _ r).get? id = some q at hq
    rw [Table.get?_put] at hq
    split at hq
    · obtain rfl := Option.some.inj hq
      rw [lasts] at ended
      cases ended
    · exact h.begun id q hq ended

/-- A thread gets its main fiber. -/
theorem createMain (h : t.Staffed on) (i : Nat) :
    t.createMain.1.Staffed (Function.update on i (some t.createMain.2)) ∧
      t.Evolves t.createMain.1 := by
  have main : t.createMain.1.standing t.createMain.2 = some ⟨true, .exec, none, none⟩ := by
    rw [standing_createMain, if_pos rfl]
  have added : t.createMain.1.Staffed on := h.add _ rfl rfl rfl
  refine ⟨h.moved added.toPaired ⟨_, main, rfl, rfl⟩ (fun j d _ hd => ?_) added.begun,
    .add h.numbered _⟩
  obtain ⟨s, hs, _⟩ := h.running j d hd
  have old : d ≠ t.createMain.2 := by
    rintro rfl
    exact absurd (h.numbered _ s hs) (Nat.not_succ_le_self _)
  exact ⟨old, by rw [standing_createMain, if_neg old]⟩

theorem depart (h : t.Staffed on) (here : on i = some c) (hs : t.standing x = some s)
    (resumable : s.state.isResumable = true) (free : s.awaiting = none) :
    (t.depart c x).Staffed (Function.update on i (some x)) ∧ t.Evolves (t.depart c x) := by
  have runs := h.running i c here
  have still : s.state ≠ .exec := fun e => by rw [e] at resumable; cases resumable
  have lasts : s.state.isTerminal = false := by
    cases hstate : s.state <;> rw [hstate] at resumable <;> first | rfl | cases resumable
  have apart : ∀ {d}, t.Runs d → d ≠ x := by
    rintro d ⟨q, hq, exec, _⟩ rfl
    obtain rfl := Option.some.inj (hs.symm.trans hq)
    exact still exec
  have after := standing_depart t (apart runs).symm
  have unended : ∀ {d q r}, t.standing d = some q → q.state.isTerminal = false →
      t.get? d = some r → r.state.isTerminal = false := by
    intro d q r hq lasts hr
    have known : t.standing d = some r.standing := congrArg (Option.map _) hr
    obtain rfl := Option.some.inj (hq.symm.trans known)
    exact lasts
  obtain ⟨q, hq, exec, _⟩ := runs
  have evolves : t.Evolves (t.depart c x) := by
    refine (Evolves.modify t c (k := fun r => { r with state := .hold, awaiting := some x }) ?_
      (fun _ => rfl) fun _ => rfl).trans (Evolves.modify _ x ?_ (fun _ => rfl) fun _ => rfl)
    · exact fun r hr => unended hq (by rw [exec]; rfl) hr
    · intro r hr
      rw [get?_modify, if_neg (apart ⟨q, hq, exec, ‹_›⟩).symm] at hr
      exact unended hs lasts hr
  refine ⟨h.moved (h.toPaired.depart ⟨q, hq, exec, ‹_›⟩ hs resumable free)
    ⟨{ s with state := .exec, resumer := some c }, by rw [after, if_pos rfl, hs]; rfl, rfl, free⟩
    (fun j d hj hd => ?_) ?_, evolves⟩
  · have hdx := apart (h.running j d hd)
    have hdc : d ≠ c := fun e => hj (h.apart j i c (e ▸ hd) here)
    exact ⟨hdx, by rw [after, if_neg hdx, if_neg hdc]⟩
  · have called := h.begun_modify c (k := fun r => { r with state := .hold, awaiting := some x })
      fun _ _ ended => nomatch ended
    intro j r hr
    rw [FiberTable.depart, get?_modify] at hr
    split at hr
    · obtain ⟨u, _, rfl⟩ := Option.map_eq_some_iff.mp hr
      exact fun ended => nomatch ended
    · exact called j r hr

theorem handedBack (h : t.Staffed on) (here : on i = some c) {r : FiberRecord β}
    (hr : t.get? c = some r) (called : r.resumer = some g) (body : r.entry = none)
    (left : FiberState) :
    (t.handedBack c g left).Staffed (Function.update on i (some g)) ∧
      t.Evolves (t.handedBack c g left) := by
  have hs : t.standing c = some r.standing := congrArg (Option.map _) hr
  obtain ⟨q, hq, exec, unwaiting⟩ := h.running i c here
  obtain rfl := Option.some.inj (hs.symm.trans hq)
  obtain ⟨_, u, hu, awaits⟩ := h.resumed g c r.standing hs called
  have hold := (h.waiting g c u hu awaits).1
  have hne : g ≠ c := by
    rintro rfl
    obtain rfl := Option.some.inj (hs.symm.trans hu)
    exact nomatch unwaiting.symm.trans awaits
  have after := standing_handedBack t left hne
  obtain ⟨y, hy, rfl⟩ := get?_of_standing hu
  have records : ∀ j, (t.handedBack c g left).get? j =
      if j = c then some { r with yielded := left, resumer := none, state := left }
      else if j = g then some { y with state := .exec, awaiting := none }
      else t.get? j := by
    intro j
    rw [get?_handedBack t left hne]
    by_cases hc : j = c
    · rw [if_pos hc, if_pos hc, hc, hr]
      rfl
    · rw [if_neg hc, if_neg hc]
      by_cases hg : j = g
      · rw [if_pos hg, if_pos hg, hg, hy]
        rfl
      · rw [if_neg hg, if_neg hg]
  refine ⟨h.moved (h.toPaired.handedBack ⟨_, hs, exec, unwaiting⟩ hs called left)
    ⟨{ y.standing with state := .exec, awaiting := none },
      by rw [after, if_neg hne, if_pos rfl, hu]; rfl, rfl, rfl⟩
    (fun j d hj hd => ?_) fun j p hp => ?_, fun j p hp => ?_⟩
  · obtain ⟨p, hp, runs, _⟩ := h.running j d hd
    have hdg : d ≠ g := by
      rintro rfl
      obtain rfl := Option.some.inj (hu.symm.trans hp)
      exact nomatch hold.symm.trans runs
    have hdc : d ≠ c := fun e => hj (h.apart j i c (e ▸ hd) here)
    exact ⟨hdg, by rw [after, if_neg hdc, if_neg hdg]⟩
  · rw [records] at hp
    split at hp
    · obtain rfl := Option.some.inj hp
      exact fun _ => body
    · split at hp
      · obtain rfl := Option.some.inj hp
        exact fun ended => nomatch ended
      · exact h.begun j p hp
  · rw [records]
    split
    · next hj =>
      subst hj
      obtain rfl := Option.some.inj (hr.symm.trans hp)
      refine ⟨_, rfl, rfl, rfl, fun ended => ?_⟩
      rw [show r.state = .exec from exec] at ended
      cases ended
    · split
      · next hj =>
        subst hj
        obtain rfl := Option.some.inj (hy.symm.trans hp)
        refine ⟨_, rfl, rfl, rfl, fun ended => ?_⟩
        rw [show y.state = .hold from hold] at ended
        cases ended
      · exact ⟨p, hp, .refl p⟩

/-- A fiber that runs takes its body out. -/
theorem takeEntry (h : t.Staffed on) (runs : t.Runs c) :
    (t.takeEntry c).1.Staffed on ∧ t.Evolves (t.takeEntry c).1 := by
  have same := standing_takeEntry t c
  refine ⟨⟨?_, fun i d hd => ?_, h.apart, h.begun_modify c fun _ _ _ => rfl⟩, ?_⟩
  · exact h.toPaired.of_fewer rfl fun id => .inl (same id)
  · obtain ⟨s, hs, runs⟩ := h.running i d hd
    exact ⟨s, (same d).trans hs, runs⟩
  · refine Evolves.modify t c (fun r hr => ?_) (fun _ => rfl) fun _ => rfl
    obtain ⟨s, hs, exec, _⟩ := runs
    have known : t.standing c = some r.standing := congrArg (Option.map _) hr
    obtain rfl := Option.some.inj (hs.symm.trans known)
    rw [show r.state = .exec from exec]
    rfl

/-- A fiber that has ended gets a new body. -/
theorem restarted (h : t.Staffed on) {r : FiberRecord β} (hr : t.get? id = some r)
    (ended : r.state.isTerminal = true) (body : β) : (t.restarted id body).Staffed on := by
  have hs : t.standing id = some r.standing := congrArg (Option.map _) hr
  have still : r.state ≠ .exec := fun e => by rw [e] at ended; cases ended
  have awaiting := h.unwaiting_of_ended hr ended
  have resumer := h.unresumed hs still awaiting
  refine ⟨h.toPaired.modify_apart hs resumer awaiting
    (m := fun s => { s with state := .init, awaiting := none }) (fun _ => rfl) resumer rfl,
    fun i c hc => ?_, h.apart, h.begun_modify id fun _ _ init => nomatch init⟩
  obtain ⟨s, hs', exec, waits⟩ := h.running i c hc
  refine ⟨s, ?_, exec, waits⟩
  rw [standing_restarted, if_neg, hs']
  rintro rfl
  obtain rfl := Option.some.inj (hs.symm.trans hs')
  exact still exec

/-- A resume that is let through, of a fiber that waits for nobody, moves the thread to it. -/
theorem resume (h : t.Staffed on) {hasScheduler : Bool} {tr : Transfer β}
    (accepted : t.resume (on i) x hasScheduler = .ok tr)
    (free : ∀ r, t.get? x = some r → r.awaiting = none) :
    tr.target = x ∧ tr.told = none ∧ tr.fibers.Staffed (Function.update on i (some x)) ∧
      t.Evolves tr.fibers := by
  unfold FiberTable.resume resumeFault? at accepted
  split at accepted
  · cases accepted
  next hfault =>
  obtain ⟨r, hr, state⟩ : ∃ r, t.get? x = some r ∧ r.state.isResumable = true := by
    split at hfault
    · cases hfault
    · next r hr =>
      split at hfault
      · cases hfault
      · next hstate =>
        rw [Bool.or_eq_true, not_or, Bool.not_eq_true, Bool.not_eq_false'] at hstate
        exact ⟨r, hr, hstate.1⟩
  split at accepted
  · cases accepted
  -- The thread is on a fiber by now, be it a main one that it only just got.
  have aboard : ∃ u : FiberTable β, ∃ c, t.currentOrMain (on i) = (u, c) ∧
      u.Staffed (Function.update on i (some c)) ∧ t.Evolves u ∧
      u.standing x = some r.standing := by
    have hs : t.standing x = some r.standing := congrArg (Option.map _) hr
    cases here : on i with
    | some c =>
      refine ⟨t, c, rfl, ?_, fun _ q hq => ⟨q, hq, .refl q⟩, hs⟩
      rwa [← here, Function.update_eq_self]
    | none =>
      refine ⟨t.createMain.1, t.createMain.2, rfl, (h.createMain i).1, (h.createMain i).2, ?_⟩
      rw [standing_createMain, if_neg, hs]
      rintro rfl
      exact absurd (h.numbered _ _ hs) (Nat.not_succ_le_self _)
  obtain ⟨u, c, seen, staffed, evolves, hs⟩ := aboard
  rw [seen] at accepted
  obtain ⟨departed, evolves'⟩ :=
    staffed.depart (Function.update_self i (some c) on) hs state (free r hr)
  have runs := (departed.running i x (Function.update_self ..))
  obtain ⟨q, hq, _, unwaiting⟩ := runs
  have ok : tr = (u.depart c x).transfer c x := (Except.ok.inj accepted).symm
  rw [transfer_of_standing c hq unwaiting] at ok
  subst ok
  rw [Function.update_idem] at departed
  exact ⟨rfl, rfl, departed, evolves.trans evolves'⟩

/-- A fiber that hands back goes to its resumer, whose resume ends. -/
theorem handBack_eq (h : t.Staffed on) (here : on i = some c) {left : FiberState} {tr : Transfer β}
    (ok : t.handBack c left = .ok tr) :
    ∃ g r y, t.get? c = some r ∧ r.resumer = some g ∧ t.get? g = some y ∧ y.awaiting = some c ∧
      g ≠ c ∧ tr = ⟨t.handedBack c g left, c, g, some left⟩ := by
  obtain ⟨s, hs, _, unwaiting⟩ := h.running i c here
  obtain ⟨r, hr, rfl⟩ := get?_of_standing hs
  unfold FiberTable.handBack at ok
  split at ok
  · cases ok
  next g called =>
  have called : r.resumer = some g := by rwa [hr] at called
  obtain ⟨_, u, hu, awaits⟩ := h.resumed g c r.standing hs called
  obtain ⟨y, hy, rfl⟩ := get?_of_standing hu
  have hne : g ≠ c := by
    rintro rfl
    obtain rfl := Option.some.inj (hr.symm.trans hy)
    exact nomatch (show r.awaiting = none from unwaiting).symm.trans awaits
  have asked : (t.modify c fun r => { r with yielded := left }).get? c =
      some { r with yielded := left } := by
    rw [get?_modify, if_pos rfl, hr]
    rfl
  have resumer : (t.modify c fun r => { r with yielded := left }).get? g = some y := by
    rw [get?_modify, if_neg hne, hy]
  refine ⟨g, r, y, hr, called, hy, awaits, hne, ?_⟩
  rw [← Except.ok.inj ok]
  simp only [transfer, arrive_awaited resumer awaits asked]
  rfl

/-- A fiber that has taken its body out and hands back moves its thread to its resumer. -/
theorem handBack (h : t.Staffed on) (here : on i = some c) {left : FiberState} {tr : Transfer β}
    (ok : t.handBack c left = .ok tr) (body : ∀ r, t.get? c = some r → r.entry = none) :
    tr.fibers.Staffed (Function.update on i (some tr.target)) ∧ t.Evolves tr.fibers := by
  obtain ⟨g, r, _, hr, called, _, _, _, rfl⟩ := h.handBack_eq here ok
  exact h.handedBack here hr called (body r hr) left

end Staffed

end FiberTable

end Fibers
