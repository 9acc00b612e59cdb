import Fibers.Text.Blank
import Mathlib.Data.List.Basic

/-!
Laws of lines and of the removal of white space. A text whose two ends are not white space is left
alone, and what is left of any text is such a text. Lines hold no line feed, and lines that were
written one after the other, each with a line feed behind it, are read as they were, unless one of
them ends in a carriage return.
-/

namespace Fibers.Text

variable {cs : List Char} {c : Char}

theorem trimStart_eq_self (h : ∀ c, cs.head? = some c → isBlank c = false) : trimStart cs = cs := by
  cases cs with
  | nil => rfl
  | cons c cs =>
    have first := h c rfl
    simp [trimStart, first]

theorem trimEnd_eq_self (h : ∀ c, cs.getLast? = some c → isBlank c = false) : trimEnd cs = cs := by
  have kept : trimStart cs.reverse = cs.reverse := by
    apply trimStart_eq_self
    intro c hc
    rw [List.head?_reverse] at hc
    exact h c hc
  rw [trimEnd, show cs.reverse.dropWhile isBlank = cs.reverse from kept, List.reverse_reverse]

/-- A text whose ends are not white space is left alone. -/
theorem trim_eq_self (first : ∀ c, cs.head? = some c → isBlank c = false)
    (last : ∀ c, cs.getLast? = some c → isBlank c = false) : trim cs = cs := by
  rw [trim, trimStart_eq_self first, trimEnd_eq_self last]

theorem trimStart_isSuffix (cs : List Char) : trimStart cs <:+ cs := List.dropWhile_suffix _

theorem trimEnd_isPrefix (cs : List Char) : trimEnd cs <+: cs := by
  rw [← List.reverse_suffix, trimEnd, List.reverse_reverse]
  exact List.dropWhile_suffix _

theorem trim_subset (cs : List Char) : trim cs ⊆ cs := by
  intro c hc
  exact (trimStart_isSuffix cs).subset ((trimEnd_isPrefix _).subset hc)

theorem head?_trimStart (h : (trimStart cs).head? = some c) : isBlank c = false := by
  have first := List.head?_dropWhile_not isBlank cs
  rw [show cs.dropWhile isBlank = trimStart cs from rfl, h] at first
  simpa using first

theorem getLast?_trimEnd (h : (trimEnd cs).getLast? = some c) : isBlank c = false := by
  rw [trimEnd, List.getLast?_reverse] at h
  exact head?_trimStart h

/-- What is left of a text has no white space at its ends. -/
theorem trim_trim (cs : List Char) : trim (trim cs) = trim cs := by
  apply trim_eq_self
  · intro c hc
    have front := trimEnd_isPrefix (trimStart cs)
    rw [show trimEnd (trimStart cs) = trim cs from rfl] at front
    obtain ⟨rest, split⟩ := front
    apply @head?_trimStart cs
    rw [← split, List.head?_append, hc]
    rfl
  · intro c hc
    exact getLast?_trimEnd hc

theorem trim_blank_cons (h : isBlank c = true) (cs : List Char) : trim (c :: cs) = trim cs := by
  rw [trim, trim, trimStart, List.dropWhile_cons_of_pos h]
  rfl

theorem pieces_ne_nil (cs : List Char) : pieces cs ≠ [] := by
  cases cs with
  | nil => simp [pieces]
  | cons c cs =>
    simp only [pieces]
    split
    · simp
    · split <;> simp

/-- A line feed ends a piece. -/
theorem pieces_append (line rest : List Char) (h : '\n' ∉ line) :
    pieces (line ++ '\n' :: rest) = line :: pieces rest := by
  induction line with
  | nil =>
    simp only [List.nil_append, pieces]
    split
    · next none => exact absurd none (pieces_ne_nil rest)
    · next p ps some => simp [some]
  | cons c line ih =>
    rw [List.mem_cons, not_or] at h
    have other : ¬ c = '\n' := Ne.symm h.1
    simp only [List.cons_append, pieces, ih h.2]
    rw [if_neg other]

/-- No piece holds a line feed. -/
theorem not_mem_of_mem_pieces {p : List Char} (h : p ∈ pieces cs) : '\n' ∉ p := by
  induction cs generalizing p with
  | nil =>
    simp only [pieces, List.mem_singleton] at h
    simp [h]
  | cons c cs ih =>
    simp only [pieces] at h
    split at h
    · next none => exact absurd none (pieces_ne_nil cs)
    · next q qs some =>
      split at h
      · rw [← some] at h
        rcases List.mem_cons.mp h with rfl | h
        · simp
        · exact ih h
      · next other =>
        rcases List.mem_cons.mp h with rfl | h
        · have rest : '\n' ∉ q := ih (some ▸ List.mem_cons_self)
          simp [rest, Ne.symm other]
        · exact ih (some ▸ List.mem_cons_of_mem q h)

theorem chopReturn_subset (line : List Char) : chopReturn line ⊆ line := by
  unfold chopReturn
  split
  · exact List.dropLast_subset line
  · exact List.Subset.refl line

/-- No line holds a line feed. -/
theorem not_mem_of_mem_lines {line : List Char} (h : line ∈ lines cs) : '\n' ∉ line := by
  have ended : line ∈ (pieces cs).dropLast.map chopReturn → '\n' ∉ line := by
    intro mem
    obtain ⟨p, hp, rfl⟩ := List.mem_map.mp mem
    intro feed
    exact not_mem_of_mem_pieces (List.dropLast_subset _ hp) (chopReturn_subset p feed)
  simp only [lines] at h
  split at h
  · next c rest last =>
    rcases List.mem_append.mp h with h | h
    · exact ended h
    · rw [List.mem_singleton.mp h]
      exact not_mem_of_mem_pieces (List.mem_of_getLast? last)
  · exact ended h

/-- Lines one after the other, each with a line feed behind it. -/
def ofLines (ls : List (List Char)) : List Char := ls.flatMap (· ++ ['\n'])

theorem pieces_ofLines (ls : List (List Char)) (h : ∀ line ∈ ls, '\n' ∉ line) :
    pieces (ofLines ls) = ls ++ [[]] := by
  induction ls with
  | nil => rfl
  | cons line ls ih =>
    have rest := ih fun l hl => h l (List.mem_cons_of_mem line hl)
    have split : ofLines (line :: ls) = line ++ '\n' :: ofLines ls := by simp [ofLines]
    rw [split, pieces_append line _ (h line List.mem_cons_self), rest]
    rfl

/-- Lines are read as they were written. -/
theorem lines_ofLines (ls : List (List Char)) (h : ∀ line ∈ ls, '\n' ∉ line)
    (ends : ∀ line ∈ ls, line.getLast? ≠ some '\r') : lines (ofLines ls) = ls := by
  have whole : ls.map chopReturn = ls := by
    conv_rhs => rw [← List.map_id ls]
    apply List.map_congr_left
    intro line hl
    simp [chopReturn, ends line hl]
  simp only [lines, pieces_ofLines ls h, List.getLast?_append, List.getLast?_singleton,
    Option.some_or, List.dropLast_concat, whole]

end Fibers.Text
