import Mathlib.Data.List.Basic

/-!
Texts by the positions of their bytes in UTF-8, where a character takes up one to four of them. A
position is a boundary if a character begins there or the text ends. A character is looked for from
either end, and what is found is the boundary before it. A part of a text can be cut out between two
boundaries that are in order, and nowhere else.
-/

namespace Fibers.Text

variable {cs left right : List Char} {c : Char}

/-- The number of bytes of a text. -/
def width : List Char → Nat
  | [] => 0
  | c :: cs => c.utf8Size + width cs

/-- The position of the first `c`. -/
def position? (c : Char) : List Char → Option Nat
  | [] => none
  | d :: ds => if d = c then some 0 else (position? c ds).map (d.utf8Size + ·)

/-- The position of the last `c`. -/
def lastPosition? (c : Char) : List Char → Option Nat
  | [] => none
  | d :: ds =>
    match lastPosition? c ds with
    | some n => some (d.utf8Size + n)
    | none => if d = c then some 0 else none

/-- The text before and from a position, unless the position is inside a character or behind the
end. -/
def cutAt? : List Char → Nat → Option (List Char × List Char)
  | cs, 0 => some ([], cs)
  | [], _ + 1 => none
  | c :: cs, n =>
    if n < c.utf8Size then none
    else (cutAt? cs (n - c.utf8Size)).map fun parts => (c :: parts.1, parts.2)

/-- The text between two positions, unless they are out of order or one of them is no boundary. -/
def slice? (cs : List Char) (start stop : Nat) : Option (List Char) :=
  if stop < start then none
  else
    match cutAt? cs stop with
    | none => none
    | some (front, _) => (cutAt? front start).map (·.2)

/-- Whether a character begins at a position or the text ends there. -/
def IsBoundary (cs : List Char) (n : Nat) : Prop :=
  ∃ front back, cs = front ++ back ∧ width front = n

@[simp] theorem width_append (left right : List Char) :
    width (left ++ right) = width left + width right := by
  induction left with
  | nil => simp [width]
  | cons c left ih =>
    simp only [List.cons_append, width, ih]
    omega

theorem position?_eq_none (h : c ∉ cs) : position? c cs = none := by
  induction cs with
  | nil => rfl
  | cons d ds ih =>
    rw [List.mem_cons, not_or] at h
    simp [position?, Ne.symm h.1, ih h.2]

/-- The first `c` is found behind a text without it. -/
theorem position?_append (h : c ∉ left) (right : List Char) :
    position? c (left ++ c :: right) = some (width left) := by
  induction left with
  | nil => simp [position?, width]
  | cons d left ih =>
    rw [List.mem_cons, not_or] at h
    simp [position?, width, Ne.symm h.1, ih h.2]

/-- What is found first is at a boundary, and so is what follows it. -/
theorem position?_isBoundary {n : Nat} (h : position? c cs = some n) :
    IsBoundary cs n ∧ IsBoundary cs (n + c.utf8Size) := by
  by_cases mem : c ∈ cs
  · obtain ⟨left, right, rfl, fresh⟩ := List.eq_append_cons_of_mem mem
    rw [position?_append fresh] at h
    obtain rfl := Option.some.inj h
    constructor
    · exact ⟨left, c :: right, rfl, rfl⟩
    · exact ⟨left ++ [c], right, by simp, by simp [width]⟩
  · rw [position?_eq_none mem] at h
    cases h

theorem lastPosition?_eq_none (h : c ∉ cs) : lastPosition? c cs = none := by
  induction cs with
  | nil => rfl
  | cons d ds ih =>
    rw [List.mem_cons, not_or] at h
    simp [lastPosition?, Ne.symm h.1, ih h.2]

/-- The last `c` is found before a text without it. -/
theorem lastPosition?_append (left : List Char) (h : c ∉ right) :
    lastPosition? c (left ++ c :: right) = some (width left) := by
  induction left with
  | nil => simp [lastPosition?, width, lastPosition?_eq_none h]
  | cons d left ih => simp [lastPosition?, width, ih]

/-- A text with a `c` is cut in two at the last one. -/
theorem exists_last (h : c ∈ cs) : ∃ left right, cs = left ++ c :: right ∧ c ∉ right := by
  obtain ⟨back, front, split, fresh⟩ := List.eq_append_cons_of_mem (List.mem_reverse.mpr h)
  refine ⟨front.reverse, back.reverse, ?_, ?_⟩
  · rw [← List.reverse_reverse cs, split]
    simp
  · rw [List.mem_reverse]
    exact fresh

theorem lastPosition?_isBoundary {n : Nat} (h : lastPosition? c cs = some n) :
    IsBoundary cs n := by
  by_cases mem : c ∈ cs
  · obtain ⟨left, right, rfl, fresh⟩ := exists_last mem
    rw [lastPosition?_append left fresh] at h
    obtain rfl := Option.some.inj h
    exact ⟨left, c :: right, rfl, rfl⟩
  · rw [lastPosition?_eq_none mem] at h
    cases h

theorem cutAt?_append (left right : List Char) :
    cutAt? (left ++ right) (width left) = some (left, right) := by
  induction left with
  | nil => simp [width, cutAt?]
  | cons c left ih =>
    have some : 0 < c.utf8Size := Char.utf8Size_pos c
    have next : c.utf8Size + width left - c.utf8Size = width left := by omega
    have within : ¬ c.utf8Size + width left < c.utf8Size := by omega
    rw [List.cons_append, width, cutAt?, if_neg within, next, ih]
    · rfl
    · omega

/-- What can be cut out between boundaries is what stands there. -/
theorem slice?_append (left middle right : List Char) :
    slice? (left ++ middle ++ right) (width left) (width left + width middle) = some middle := by
  have ordered : ¬ width left + width middle < width left := by omega
  rw [slice?, if_neg ordered, ← width_append, cutAt?_append]
  dsimp only
  rw [cutAt?_append, Option.map_some]

/-- Nothing can be cut out that would end before it starts. -/
theorem slice?_eq_none {start stop : Nat} (h : stop < start) : slice? cs start stop = none := by
  rw [slice?, if_pos h]

theorem width_lt_append (left right : List Char) (c : Char) :
    width left < width (left ++ c :: right) := by
  have some := Char.utf8Size_pos c
  simp only [width_append, width]
  omega

end Fibers.Text
