/-!
Finite tables: lists of pairs in which a key stands at most once once it has been put. `get?` is the
view of a table; the laws say what putting and erasing do to it.
-/

namespace Fibers

/-- A finite table from `α` to `β`. -/
structure Table (α β : Type) where
  entries : List (α × β)
  deriving DecidableEq, Inhabited, Repr

namespace Table

variable {α β : Type} [DecidableEq α]

def empty : Table α β := ⟨[]⟩

/-- The value under a key. -/
def get? (t : Table α β) (k : α) : Option β :=
  (t.entries.find? fun e => decide (e.1 = k)).map (·.2)

def contains (t : Table α β) (k : α) : Bool := (t.get? k).isSome

/-- The table without a key. -/
def erase (t : Table α β) (k : α) : Table α β := ⟨t.entries.filter fun e => !decide (e.1 = k)⟩

/-- The table with `v` under `k`. -/
def put (t : Table α β) (k : α) (v : β) : Table α β := ⟨(k, v) :: (t.erase k).entries⟩

/-- The number of keys, for a table that holds each key once. -/
def size (t : Table α β) : Nat := t.entries.length

def isEmpty (t : Table α β) : Bool := t.entries.isEmpty

/-- The table with the value under `k`, if any, replaced by its image. -/
def modify (t : Table α β) (k : α) (f : β → β) : Table α β :=
  ⟨t.entries.map fun e => if e.1 = k then (e.1, f e.2) else e⟩

@[simp] theorem get?_empty (k : α) : (empty : Table α β).get? k = none := rfl

theorem find?_filter_ne (es : List (α × β)) {k j : α} (h : j ≠ k) :
    (es.filter fun e => !decide (e.1 = k)).find? (fun e => decide (e.1 = j)) =
      es.find? fun e => decide (e.1 = j) := by
  induction es with
  | nil => rfl
  | cons e es ih =>
    by_cases hk : e.1 = k
    · have hj : ¬ k = j := fun hj => h hj.symm
      simp [hk, hj, ih]
    · by_cases hj : e.1 = j
      · simp [hj, h]
      · simp [hk, hj, ih]

@[simp] theorem get?_put_self (t : Table α β) (k : α) (v : β) : (t.put k v).get? k = some v := by
  simp [put, get?]

theorem get?_erase_other (t : Table α β) {k j : α} (h : j ≠ k) : (t.erase k).get? j = t.get? j := by
  simp [erase, get?, find?_filter_ne _ h]

@[simp] theorem get?_erase_self (t : Table α β) (k : α) : (t.erase k).get? k = none := by
  simp only [erase, get?, Option.map_eq_none_iff, List.find?_eq_none, List.mem_filter]
  intro e he
  simpa using he.2

theorem get?_put_other (t : Table α β) {k j : α} (v : β) (h : j ≠ k) :
    (t.put k v).get? j = t.get? j := by
  have hk : ¬ k = j := fun e => h e.symm
  simp only [put, get?, List.find?_cons, hk, decide_false]
  exact get?_erase_other t h

end Table

end Fibers
