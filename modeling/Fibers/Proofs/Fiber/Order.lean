import Fibers.Fiber.Control
import Fibers.Proofs.Table

/-!
The order among the fibers of a thread. Of a fiber's record, the order depends on the `Standing`
alone: whether it is the main fiber, its state, who resumed it and whom it waits for. The running
fiber and those that wait for it, each inside a resume of the one before, form a chain that ends at
the main fiber; `Waits` is the chain and `Ordered` says that all fibers off the chain are at rest.
-/

namespace Fibers

/-- The part of a fiber's record that says how it stands to the other fibers. -/
structure Standing where
  isMain : Bool
  state : FiberState
  resumer : Option FiberId
  awaiting : Option FiberId
  deriving DecidableEq, Repr

namespace Standing

/-- Nobody waits for the fiber, it waits for nobody, and it does not run. -/
structure Resting (s : Standing) : Prop where
  own : s.isMain = false
  resumer : s.resumer = none
  awaiting : s.awaiting = none
  state : s.state ≠ .exec

end Standing

variable {β : Type}

def FiberRecord.standing (r : FiberRecord β) : Standing :=
  ⟨r.isMain, r.state, r.resumer, r.awaiting⟩

/-- `f` was resumed by the first of the links, that one by the second, and so on up to the main
fiber; each of them is on hold inside the resume of the one before it. -/
inductive Waits (at? : FiberId → Option Standing) : FiberId → List FiberId → Prop where
  | main {f : FiberId} {s : Standing} (found : at? f = some s) (main : s.isMain = true)
      (first : s.resumer = none) : Waits at? f []
  | link {f g : FiberId} {links : List FiberId} {s q : Standing} (found : at? f = some s)
      (own : s.isMain = false) (resumed : s.resumer = some g) (resumer : at? g = some q)
      (hold : q.state = .hold) (awaits : q.awaiting = some f) (rest : Waits at? g links) :
      Waits at? f (g :: links)

namespace Waits

variable {at? at?' : FiberId → Option Standing} {f g : FiberId} {links : List FiberId}

theorem found (h : Waits at? f links) : ∃ s, at? f = some s := by
  cases h with
  | main found _ _ => exact ⟨_, found⟩
  | link found _ _ _ _ _ _ => exact ⟨_, found⟩

/-- What the chain below `f` says of `f` itself is whether it is the main fiber and who resumed it.
-/
theorem congr (h : Waits at? f links) {s s' : Standing} (hs : at? f = some s)
    (hs' : at?' f = some s') (main : s'.isMain = s.isMain) (resumer : s'.resumer = s.resumer)
    (same : ∀ g ∈ links, at?' g = at? g) : Waits at?' f links := by
  induction h generalizing s s' with
  | main found hm hr =>
    obtain rfl := Option.some.inj (found.symm.trans hs)
    exact .main hs' (main.trans hm) (resumer.trans hr)
  | @link f g links t q found own resumed found' hold awaits rest ih =>
    obtain rfl := Option.some.inj (found.symm.trans hs)
    have hg : at?' g = some q := (same g List.mem_cons_self).trans found'
    refine .link hs' (main.trans own) (resumer.trans resumed) hg hold awaits ?_
    exact ih found' hg rfl rfl fun i hi => same i (List.mem_cons_of_mem _ hi)

/-- Everyone on the links is on hold, inside a resume. -/
theorem held (h : Waits at? f links) (hg : g ∈ links) :
    ∃ s, at? g = some s ∧ s.state = .hold ∧ s.awaiting ≠ none := by
  induction h with
  | main => cases hg
  | link _ _ _ found hold awaits _ ih =>
    rcases List.mem_cons.mp hg with rfl | hg
    · exact ⟨_, found, hold, by rw [awaits]; exact Option.some_ne_none _⟩
    · exact ih hg

/-- The chain ends at the main fiber. -/
theorem ends_at_main (h : Waits at? f links) :
    ∃ s, at? ((f :: links).getLast (List.cons_ne_nil _ _)) = some s ∧ s.isMain = true := by
  induction h with
  | main found hm _ => exact ⟨_, found, hm⟩
  | link _ _ _ _ _ _ _ ih => simpa using ih

end Waits

namespace FiberTable

variable {t : FiberTable β} {c g x id : FiberId} {links : List FiberId} {s : Standing}

def standing (t : FiberTable β) (id : FiberId) : Option Standing :=
  (t.get? id).map FiberRecord.standing

/-- The state of a fiber that exists. -/
def state? (t : FiberTable β) (id : FiberId) : Option FiberState := (t.standing id).map (·.state)

theorem get?_of_standing (h : t.standing id = some s) : ∃ r, t.get? id = some r ∧ r.standing = s :=
  Option.map_eq_some_iff.mp h

theorem state_of_standing (h : t.standing id = some s) : t.state id = s.state := by
  obtain ⟨r, hr, rfl⟩ := get?_of_standing h
  simp only [state, hr, FiberRecord.standing]

@[simp] theorem get?_modify (t : FiberTable β) (id j : FiberId)
    (f : FiberRecord β → FiberRecord β) :
    (t.modify id f).get? j = if j = id then (t.get? j).map f else t.get? j :=
  Table.get?_modify _ _ _ _

/-- A change of a record that the standing does not see changes no standing. -/
theorem standing_modify (t : FiberTable β) (id j : FiberId) {f : FiberRecord β → FiberRecord β}
    {g : Standing → Standing} (h : ∀ r, (f r).standing = g r.standing) :
    (t.modify id f).standing j = if j = id then (t.standing j).map g else t.standing j := by
  unfold standing
  rw [get?_modify]
  split
  · rw [Option.map_map, Option.map_map]
    congr 1
    funext r
    exact h r
  · rfl

theorem standing_modify_same (t : FiberTable β) (id j : FiberId)
    {f : FiberRecord β → FiberRecord β} (h : ∀ r, (f r).standing = r.standing) :
    (t.modify id f).standing j = t.standing j := by
  rw [standing_modify (g := fun s => s) t id j h, Option.map_id', ite_self]

theorem standing_add (t : FiberTable β) (r : FiberRecord β) (j : FiberId) :
    (t.add r).1.standing j = if j = ⟨t.lastId + 1⟩ then some r.standing else t.standing j := by
  change Option.map _ ((t.records.put _ r).get? j) = _
  rw [Table.get?_put]
  split <;> rfl

/-- The running fiber is `c`, the links lead from it to the main fiber, and every other fiber is at
rest. -/
structure Ordered (t : FiberTable β) (c : FiberId) (links : List FiberId) : Prop where
  waits : Waits t.standing c links
  nodup : (c :: links).Nodup
  running : ∃ s, t.standing c = some s ∧ s.state = .exec ∧ s.awaiting = none
  apart : ∀ id s, t.standing id = some s → id ∉ c :: links → s.Resting
  numbered : ∀ id s, t.standing id = some s → id.val ≤ t.lastId

/-- No fiber is on a chain. -/
structure Settled (t : FiberTable β) : Prop where
  resting : ∀ id s, t.standing id = some s → s.Resting
  numbered : ∀ id s, t.standing id = some s → id.val ≤ t.lastId

namespace Ordered

/-- Every fiber runs, is on hold inside a resume, or is at rest. -/
theorem cases (h : t.Ordered c links) (hs : t.standing id = some s) :
    id = c ∧ s.state = .exec ∧ s.awaiting = none ∨
      id ∈ links ∧ s.state = .hold ∧ s.awaiting ≠ none ∨ id ∉ c :: links ∧ s.Resting := by
  by_cases hid : id ∈ c :: links
  · rcases List.mem_cons.mp hid with rfl | hid
    · obtain ⟨_, found, state, awaiting⟩ := h.running
      obtain rfl := Option.some.inj (found.symm.trans hs)
      exact .inl ⟨rfl, state, awaiting⟩
    · obtain ⟨_, found, state, awaiting⟩ := h.waits.held hid
      obtain rfl := Option.some.inj (found.symm.trans hs)
      exact .inr (.inl ⟨hid, state, awaiting⟩)
  · exact .inr (.inr ⟨hid, h.apart id s hs hid⟩)

/-- Exactly the running fiber is in execution. -/
theorem state_eq_exec_iff (h : t.Ordered c links) : t.state id = .exec ↔ id = c := by
  constructor
  · intro hexec
    cases hs : t.standing id with
    | none =>
      have hnone : t.get? id = none := Option.map_eq_none_iff.mp hs
      simp [state, hnone] at hexec
    | some s =>
      rw [state_of_standing hs] at hexec
      rcases h.cases hs with ⟨hid, _⟩ | ⟨_, hold, _⟩ | ⟨_, rest⟩
      · exact hid
      · rw [hold] at hexec
        cases hexec
      · exact absurd hexec rest.state
  · rintro rfl
    obtain ⟨s, hs, state, _⟩ := h.running
    rw [state_of_standing hs, state]

/-- A fiber that is in the state of one that may be resumed, and waits for nobody, is at rest. -/
theorem resting_of_resumable (h : t.Ordered c links) (hs : t.standing id = some s)
    (state : s.state.isResumable = true) (awaiting : s.awaiting = none) :
    id ∉ c :: links ∧ s.Resting := by
  rcases h.cases hs with ⟨_, exec, _⟩ | ⟨_, _, waits⟩ | rest
  · rw [exec] at state
    cases state
  · exact absurd awaiting waits
  · exact rest

theorem resting_of_resettable (h : t.Ordered c links) (hs : t.standing id = some s)
    (state : s.state.isResettable = true) : id ∉ c :: links ∧ s.Resting := by
  rcases h.cases hs with ⟨_, exec, _⟩ | ⟨_, hold, _⟩ | rest
  · rw [exec] at state
    cases state
  · rw [hold] at state
    cases state
  · exact rest

/-- What does not change the standing of the fibers on the chain, and leaves all others at rest,
does not change the order. -/
theorem congr (h : t.Ordered c links) {t' : FiberTable β}
    (same : ∀ id ∈ c :: links, t'.standing id = t.standing id)
    (apart : ∀ id s, t'.standing id = some s → id ∉ c :: links → s.Resting)
    (numbered : ∀ id s, t'.standing id = some s → id.val ≤ t'.lastId) : t'.Ordered c links := by
  obtain ⟨s, found, running⟩ := h.running
  have found' := (same c List.mem_cons_self).trans found
  refine ⟨?_, h.nodup, ⟨s, found', running⟩, apart, numbered⟩
  exact h.waits.congr found found' rfl rfl fun g hg => same g (List.mem_cons_of_mem _ hg)

/-- Identities that were not handed out yet are on no chain. -/
theorem fresh_not_mem (h : t.Ordered c links) {n : Nat} (hn : t.lastId < n) :
    (⟨n⟩ : FiberId) ∉ c :: links := by
  intro hmem
  obtain ⟨s, hs⟩ : ∃ s, t.standing ⟨n⟩ = some s := by
    rcases List.mem_cons.mp hmem with hc | hl
    · obtain ⟨s, hs, _⟩ := h.running
      exact ⟨s, hc ▸ hs⟩
    · obtain ⟨s, hs, _⟩ := h.waits.held hl
      exact ⟨s, hs⟩
  exact absurd (h.numbered _ _ hs) (Nat.not_le.mpr hn)

end Ordered

end FiberTable

end Fibers
