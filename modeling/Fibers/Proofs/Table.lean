import Fibers.Table
import Mathlib.Algebra.GroupWithZero.Nat
import Mathlib.Data.List.Nodup

/-!
Laws of finite tables. `get?` is the view of a table, so each operation is described by what it does
to `get?`. A table is `Distinct` if it holds each key once; every table that is built from the empty
one by the operations is, and then its entries and its size can be read off `get?`.
-/

namespace Fibers.Table

variable {α β γ : Type} [DecidableEq α]

theorem get?_put (t : Table α β) (k j : α) (v : β) :
    (t.put k v).get? j = if j = k then some v else t.get? j := by
  split
  · next h => rw [h, get?_put_self]
  · next h => exact get?_put_other t v h

theorem get?_erase (t : Table α β) (k j : α) :
    (t.erase k).get? j = if j = k then none else t.get? j := by
  split
  · next h => rw [h, get?_erase_self]
  · next h => exact get?_erase_other t h

theorem get?_modify (t : Table α β) (k j : α) (f : β → β) :
    (t.modify k f).get? j = if j = k then (t.get? j).map f else t.get? j := by
  obtain ⟨es⟩ := t
  simp only [modify, get?]
  induction es with
  | nil => simp
  | cons e es ih =>
    by_cases hk : e.1 = k
    · by_cases hj : k = j
      · simp [hk, hj]
      · have hj' : ¬ j = k := fun h => hj h.symm
        simpa [hk, hj, hj'] using ih
    · by_cases hj : e.1 = j
      · have hjk : ¬ j = k := fun h => hk (hj.trans h)
        simp [hj, hjk]
      · simpa [hk, hj] using ih

@[simp] theorem contains_eq_isSome (t : Table α β) (k : α) : t.contains k = (t.get? k).isSome := rfl

def keys (t : Table α β) : List α := t.entries.map (·.1)

/-- The table holds each key once. -/
def Distinct (t : Table α β) : Prop := t.keys.Nodup

omit [DecidableEq α] in
theorem distinct_empty : (empty : Table α β).Distinct := List.nodup_nil

theorem distinct_erase {t : Table α β} (h : t.Distinct) (k : α) : (t.erase k).Distinct :=
  h.sublist (List.Sublist.map _ List.filter_sublist)

theorem distinct_put {t : Table α β} (h : t.Distinct) (k : α) (v : β) : (t.put k v).Distinct := by
  refine List.nodup_cons.mpr ⟨?_, distinct_erase h k⟩
  intro hk
  obtain ⟨e, he, hek⟩ := List.mem_map.mp hk
  have hne := (List.mem_filter.mp he).2
  simp [hek] at hne

theorem distinct_modify {t : Table α β} (h : t.Distinct) (k : α) (f : β → β) :
    (t.modify k f).Distinct := by
  have hkeys : (t.modify k f).keys = t.keys := by
    simp only [keys, modify, List.map_map]
    apply List.map_congr_left
    intro e _
    simp only [Function.comp]
    split <;> rfl
  rw [Distinct, hkeys]
  exact h

theorem mem_of_get? {t : Table α β} {k : α} {v : β} (h : t.get? k = some v) :
    (k, v) ∈ t.entries := by
  simp only [get?, Option.map_eq_some_iff] at h
  obtain ⟨e, he, hv⟩ := h
  have hk := List.find?_some he
  have hmem := List.mem_of_find?_eq_some he
  simp only [decide_eq_true_eq] at hk
  rwa [← hk, ← hv]

theorem get?_of_mem {t : Table α β} (h : t.Distinct) {k : α} {v : β} (he : (k, v) ∈ t.entries) :
    t.get? k = some v := by
  obtain ⟨es⟩ := t
  simp only [Distinct, keys] at h
  simp only [get?] at *
  induction es with
  | nil => simp at he
  | cons e es ih =>
    obtain ⟨hfresh, hrest⟩ := List.nodup_cons.mp h
    rcases List.mem_cons.mp he with rfl | he
    · simp
    · have hne : ¬ e.1 = k := by
        rintro rfl
        exact hfresh (List.mem_map.mpr ⟨_, he, rfl⟩)
      simpa [hne] using ih hrest he

/-- The entries of a table are its view. -/
theorem mem_entries_iff {t : Table α β} (h : t.Distinct) (k : α) (v : β) :
    (k, v) ∈ t.entries ↔ t.get? k = some v :=
  ⟨get?_of_mem h, mem_of_get?⟩

theorem mem_keys_iff {t : Table α β} (k : α) : k ∈ t.keys ↔ (t.get? k).isSome = true := by
  simp only [keys, get?, List.mem_map, Option.isSome_map, List.find?_isSome, decide_eq_true_eq]

/-- Tables with the same keys have the same size. -/
theorem size_congr {s : Table α β} {t : Table α γ} (hs : s.Distinct) (ht : t.Distinct)
    (h : ∀ k, (s.get? k).isSome = (t.get? k).isSome) : s.size = t.size := by
  have hperm : s.keys.Perm t.keys := by
    rw [List.perm_ext_iff_of_nodup hs ht]
    intro k
    rw [mem_keys_iff, mem_keys_iff, h]
  simpa [keys, size] using hperm.length_eq

theorem erase_entries_of_not_contains {t : Table α β} {k : α} (h : t.contains k = false) :
    (t.erase k).entries = t.entries := by
  refine List.filter_eq_self.mpr fun e he => ?_
  have hk : k ∉ t.keys := by
    rw [mem_keys_iff, ← contains_eq_isSome, h]
    exact Bool.false_ne_true
  have hne : ¬ e.1 = k := by
    rintro rfl
    exact hk (List.mem_map.mpr ⟨e, he, rfl⟩)
  simp [hne]

theorem size_put_of_not_contains {t : Table α β} {k : α} (h : t.contains k = false) (v : β) :
    (t.put k v).size = t.size + 1 := by
  simp only [size, put, List.length_cons, erase_entries_of_not_contains h]

theorem size_erase_of_get? {t : Table α β} (h : t.Distinct) {k : α} {v : β}
    (found : t.get? k = some v) : (t.erase k).size = t.size - 1 := by
  have back : ((t.erase k).put k v).size = t.size := by
    refine size_congr (distinct_put (distinct_erase h k) k v) h fun j => ?_
    rw [get?_put, get?_erase]
    split
    · next hj => rw [hj, found]
    · rfl
  rw [size_put_of_not_contains (by simp)] at back
  omega

theorem size_modify (t : Table α β) (k : α) (f : β → β) : (t.modify k f).size = t.size := by
  simp [modify, size]

theorem isEmpty_iff (t : Table α β) : t.isEmpty = true ↔ ∀ k, t.get? k = none := by
  obtain ⟨es⟩ := t
  cases es with
  | nil => simp [isEmpty, get?]
  | cons e es =>
    simp only [isEmpty, List.isEmpty_cons, Bool.false_eq_true, false_iff, not_forall]
    exact ⟨e.1, by simp [get?]⟩

def values (t : Table α β) : List β := t.entries.map (·.2)

theorem values_put {t : Table α β} {k : α} (h : t.contains k = false) (v : β) :
    (t.put k v).values = v :: t.values := by
  simp only [values, put, List.map_cons, erase_entries_of_not_contains h]

/-- A value is put aside with its key. -/
theorem values_erase {t : Table α β} (h : t.Distinct) {k : α} {v : β} (found : t.get? k = some v) :
    t.values.Perm (v :: (t.erase k).values) := by
  obtain ⟨es⟩ := t
  induction es with
  | nil => cases found
  | cons e es ih =>
    have h' : e.1 ∉ es.map (·.1) ∧ Distinct ⟨es⟩ := List.nodup_cons.mp h
    by_cases hk : e.1 = k
    · have hv : e.2 = v := by simpa [get?, hk] using found
      have rest : (erase ⟨es⟩ k).entries = es := by
        refine erase_entries_of_not_contains ?_
        cases hc : Table.contains ⟨es⟩ k with
        | false => rfl
        | true => exact absurd ((mem_keys_iff k).mpr hc) (hk ▸ h'.1)
      have gone : (erase ⟨e :: es⟩ k).entries = es := by
        rw [← rest]
        simp [erase, hk]
      rw [values, values, gone, List.map_cons, hv]
    · have tail := ih h'.2 (by simpa [get?, hk] using found)
      have kept : (erase ⟨e :: es⟩ k).entries = e :: (erase ⟨es⟩ k).entries := by
        simp [erase, hk]
      rw [values, values, kept, List.map_cons, List.map_cons]
      exact (tail.cons e.2).trans (List.Perm.swap ..)

theorem mem_values {t : Table α β} (h : t.Distinct) (v : β) :
    v ∈ t.values ↔ ∃ k, t.get? k = some v := by
  simp only [values, List.mem_map, Prod.exists, exists_eq_right, mem_entries_iff h]

def weight (t : Table α β) (f : β → Nat) : Nat := (t.entries.map fun e => f e.2).sum

theorem weight_modify_le (t : Table α β) (k : α) {f : β → Nat} {g : β → β}
    (h : ∀ v, f (g v) ≤ f v) : (t.modify k g).weight f ≤ t.weight f := by
  obtain ⟨es⟩ := t
  simp only [weight, modify]
  induction es with
  | nil => simp
  | cons e es ih =>
    simp only [List.map_cons, List.sum_cons]
    refine Nat.add_le_add ?_ ih
    split
    · exact h e.2
    · exact Nat.le_refl _

theorem weight_erase_le_self (t : Table α β) (k : α) (f : β → Nat) :
    (t.erase k).weight f ≤ t.weight f := by
  obtain ⟨es⟩ := t
  simp only [weight, erase]
  induction es with
  | nil => simp
  | cons e es ih =>
    by_cases hk : e.1 = k
    · simp only [List.filter_cons, hk, decide_true, Bool.not_true, if_false, Bool.false_eq_true,
        List.map_cons, List.sum_cons]
      omega
    · simp only [List.filter_cons, hk, decide_false, Bool.not_false, if_true, List.map_cons,
        List.sum_cons]
      omega

/-- What is erased takes its weight with it. -/
theorem weight_erase_le {t : Table α β} {k : α} {v : β} (found : t.get? k = some v) (f : β → Nat) :
    (t.erase k).weight f + f v ≤ t.weight f := by
  obtain ⟨es⟩ := t
  induction es with
  | nil => cases found
  | cons e es ih =>
    by_cases hk : e.1 = k
    · have hv : e.2 = v := by simpa [get?, hk] using found
      have rest := weight_erase_le_self ⟨es⟩ k f
      simp only [weight, erase, List.filter_cons, hk, decide_true, Bool.not_true, if_false,
        Bool.false_eq_true, List.map_cons, List.sum_cons, hv] at *
      omega
    · have tail := ih (by simpa [get?, hk] using found)
      simp only [weight, erase, List.filter_cons, hk, decide_false, Bool.not_false, if_true,
        List.map_cons, List.sum_cons] at *
      omega

end Fibers.Table
