import Fibers.Proofs.Config.RoundTrip
import Fibers.Proofs.Text.Bytes

/-!
What a user's file can do to the reading of it. A constant is taken apart by the positions of bytes:
the first colon, the first equals sign and the last semicolon are looked for apart from each other,
and the name and the value are cut out between them. Each of these positions is a boundary of
characters, whatever the text is. They are in order as well, with one exception: a line whose last
semicolon stands before its first equals sign. Such a line breaks the whole build off.
-/

namespace Fibers.Config

open Fibers.Text

variable {left right cs : List Char}

/-- The position at which the value of a constant ends. -/
def valueEnd (cs : List Char) : Nat := (lastPosition? ';' cs).getD (width cs)

/-- Reads a name and a value by cutting them out of the text. -/
def cutBody (cs : List Char) : ConstLine :=
  match position? ':' cs with
  | none => .nothing
  | some colon =>
    match slice? cs 0 colon with
    | none => .broken
    | some name =>
      match position? '=' cs with
      | none => .nothing
      | some equals =>
        match slice? cs (equals + 1) (valueEnd cs) with
        | none => .broken
        | some value => .constant (trim name) (trim value)

/-- The name of a constant is found and cut out in any text. -/
theorem colon_cases (cs : List Char) :
    (before? ':' cs = none ∧ position? ':' cs = none) ∨
      ∃ name colon, before? ':' cs = some name ∧ position? ':' cs = some colon ∧
        slice? cs 0 colon = some name := by
  by_cases h : ':' ∈ cs
  · obtain ⟨name, rest, rfl, fresh⟩ := List.eq_append_cons_of_mem h
    refine .inr ⟨name, width name, before?_append fresh rest, position?_append fresh rest, ?_⟩
    have cut := slice?_append [] name (':' :: rest)
    simpa [width] using cut
  · exact .inl ⟨by rw [before?, if_neg h], position?_eq_none h⟩

theorem valueEnd_isBoundary (cs : List Char) : IsBoundary cs (valueEnd cs) := by
  rw [valueEnd]
  cases h : lastPosition? ';' cs with
  | none => exact ⟨cs, [], by simp, rfl⟩
  | some n => exact lastPosition?_isBoundary h

theorem lastIndexOr_eq_length {c : Char} (h : c ∉ cs) : lastIndexOr c cs = cs.length := by
  simp [lastIndexOr, before?, h]

/-- The last semicolon stands before the first equals sign. -/
def EndsEarly (cs : List Char) : Prop :=
  ∃ left right, cs = left ++ '=' :: right ∧ '=' ∉ left ∧ ';' ∈ left ∧ ';' ∉ right

theorem endsEarly_append (first : '=' ∉ left) :
    EndsEarly (left ++ '=' :: right) ↔ ';' ∈ left ∧ ';' ∉ right := by
  constructor
  · rintro ⟨left', right', split, first', before, none⟩
    have same := before?_append first right
    rw [split, before?_append first'] at same
    obtain rfl := Option.some.inj same
    obtain rfl : right' = right := by simpa using split.symm
    exact ⟨before, none⟩
  · rintro ⟨before, none⟩
    exact ⟨left, right, rfl, first, before, none⟩

theorem width_equals (cs : List Char) : width ('=' :: cs) = 1 + width cs := by
  simp [width]
  decide

/-- The ways in which reading looks for a value: there is none; the value would have its end before
its start, whether that is counted in characters or in bytes; or the same value is found either
way. -/
inductive Found (cs : List Char) : Prop where
  | unset (chars : before? '=' cs = none) (bytes : position? '=' cs = none)
  | early (left : List Char) (chars : before? '=' cs = some left)
      (bytes : position? '=' cs = some (width left)) (early : EndsEarly cs)
      (chars_stop : lastIndexOr ';' cs < left.length + 1)
      (bytes_stop : valueEnd cs < width left + 1)
  | value (left : List Char) (chars : before? '=' cs = some left)
      (bytes : position? '=' cs = some (width left)) (late : ¬ EndsEarly cs)
      (chars_stop : left.length + 1 ≤ lastIndexOr ';' cs)
      (cut : slice? cs (width left + 1) (valueEnd cs) =
        some ((cs.drop (left.length + 1)).take (lastIndexOr ';' cs - (left.length + 1))))

/-- Between the first equals sign and an end behind it, positions of bytes cut out what numbers of
characters do. -/
theorem found_value {left value rest : List Char} (split : cs = left ++ '=' :: (value ++ rest))
    (first : '=' ∉ left) (late : ¬ EndsEarly cs)
    (chars : lastIndexOr ';' cs = (left ++ '=' :: value).length)
    (bytes : valueEnd cs = width (left ++ '=' :: value)) : Found cs := by
  have parts : cs = (left ++ ['=']) ++ value ++ rest := by simp [split]
  have start : width (left ++ ['=']) = width left + 1 := by
    rw [width_append, width_equals]
    simp [width]
  have stop : width (left ++ '=' :: value) = width (left ++ ['=']) + width value := by
    simp [width]
    omega
  have cut : slice? cs (width left + 1) (valueEnd cs) = some value := by
    rw [bytes, stop, ← start, parts]
    exact slice?_append (left ++ ['=']) value rest
  have taken : (cs.drop (left.length + 1)).take (lastIndexOr ';' cs - (left.length + 1)) =
      value := by
    have length : left.length + 1 = (left ++ ['=']).length := by simp
    have rest_length : (left ++ '=' :: value).length - (left ++ ['=']).length = value.length := by
      simp
      omega
    rw [chars, length, rest_length, parts, List.append_assoc, List.drop_left]
    exact List.take_left' rfl
  apply Found.value left
  · rw [split, before?_append first]
  · rw [split, position?_append first]
  · exact late
  · rw [chars]
    simp
  · rw [taken, cut]

/-- Every text is read in one of these ways. -/
theorem found (cs : List Char) : Found cs := by
  by_cases set : '=' ∈ cs
  · obtain ⟨left, right, split, first⟩ := List.eq_append_cons_of_mem set
    have ends : EndsEarly cs ↔ ';' ∈ left ∧ ';' ∉ right := by
      rw [split]
      exact endsEarly_append first
    by_cases behind : ';' ∈ right
    · obtain ⟨value, rest, cut, last⟩ := exists_last behind
      have whole : cs = (left ++ '=' :: value) ++ ';' :: rest := by simp [split, cut]
      have parts : cs = left ++ '=' :: (value ++ ';' :: rest) := by rw [split, cut]
      apply found_value parts first
      · rw [ends]
        exact fun early => early.2 behind
      · rw [whole, lastIndexOr_append _ last]
      · rw [valueEnd, whole, lastPosition?_append _ last, Option.getD_some]
    · by_cases before : ';' ∈ left
      · obtain ⟨front, rest, cut, last⟩ := exists_last before
        have fresh : ';' ∉ rest ++ '=' :: right := by simp [last, behind]
        have whole : cs = front ++ ';' :: (rest ++ '=' :: right) := by simp [split, cut]
        apply Found.early left
        · rw [split, before?_append first]
        · rw [split, position?_append first]
        · exact ends.mpr ⟨before, behind⟩
        · rw [whole, lastIndexOr_append _ fresh, cut, List.length_append]
          omega
        · have shorter := width_lt_append front rest ';'
          rw [← cut] at shorter
          rw [valueEnd, whole, lastPosition?_append _ fresh, Option.getD_some]
          omega
      · have none : ';' ∉ cs := by simp [split, before, behind]
        have parts : cs = left ++ '=' :: (right ++ []) := by simp [split]
        apply found_value parts first
        · rw [ends]
          exact fun early => before early.1
        · rw [lastIndexOr_eq_length none, split]
        · rw [valueEnd, lastPosition?_eq_none none, Option.getD_none, split]
  · apply Found.unset
    · rw [before?, if_neg set]
    · exact position?_eq_none set

/-- Reading by numbers of characters and by positions of bytes is the same. -/
theorem readBody_eq_cutBody (cs : List Char) : readBody cs = cutBody cs := by
  rcases colon_cases cs with ⟨chars, bytes⟩ | ⟨name, colon, chars, bytes, cut⟩
  · simp only [readBody, cutBody, chars, bytes]
  · simp only [readBody, cutBody, chars, bytes, cut]
    cases found cs with
    | unset chars bytes => simp only [chars, bytes]
    | early left chars bytes early chars_stop bytes_stop =>
      simp only [chars, bytes, if_pos chars_stop, slice?_eq_none bytes_stop]
    | value left chars bytes late chars_stop cut =>
      have ordered : ¬ lastIndexOr ';' cs < left.length + 1 := by omega
      simp only [chars, bytes, if_neg ordered, cut]

/-- Reading breaks off at exactly the texts that have a name and end early. -/
theorem readBody_eq_broken (cs : List Char) :
    readBody cs = .broken ↔ ':' ∈ cs ∧ EndsEarly cs := by
  by_cases named : ':' ∈ cs
  · have name : before? ':' cs = some (cs.takeWhile (· != ':')) := if_pos named
    cases found cs with
    | unset chars bytes =>
      have none : ¬ EndsEarly cs := by
        rintro ⟨left, right, rfl, first, -⟩
        rw [before?_append first] at chars
        cases chars
      simp [readBody, name, chars, none]
    | early left chars bytes early chars_stop bytes_stop =>
      simp [readBody, name, chars, chars_stop, named, early]
    | value left chars bytes late chars_stop cut =>
      have ordered : ¬ lastIndexOr ';' cs < left.length + 1 := by omega
      simp [readBody, name, chars, ordered, late]
  · simp [readBody, before?, named]

/-- What the cuts of a body rely on. -/
structure Cuts (cs : List Char) : Prop where
  name : ∀ colon, position? ':' cs = some colon → IsBoundary cs colon
  start : ∀ equals, position? '=' cs = some equals → IsBoundary cs (equals + 1)
  stop : IsBoundary cs (valueEnd cs)
  /-- The value starts before it ends, unless the text ends early. -/
  order : ∀ equals, position? '=' cs = some equals → (equals + 1 ≤ valueEnd cs ↔ ¬ EndsEarly cs)

theorem cuts (cs : List Char) : Cuts cs := by
  constructor
  · intro colon h
    exact (position?_isBoundary h).1
  · intro equals h
    exact (position?_isBoundary h).2
  · exact valueEnd_isBoundary cs
  · intro equals h
    cases found cs with
    | unset chars bytes =>
      rw [bytes] at h
      cases h
    | early left chars bytes early chars_stop bytes_stop =>
      rw [bytes] at h
      obtain rfl := Option.some.inj h
      simp only [early, not_true_eq_false, iff_false]
      omega
    | value left chars bytes late chars_stop cut =>
      rw [bytes] at h
      obtain rfl := Option.some.inj h
      have ordered : width left + 1 ≤ valueEnd cs := by
        by_contra short
        rw [slice?_eq_none (by omega)] at cut
        cases cut
      simp only [ordered, late, not_false_eq_true]

/-- A line declares a constant whose value would have its end before its start. -/
def Breaks (line : List Char) : Prop :=
  ∃ rest, line = constWords ++ rest ∧ ':' ∈ trim rest ∧ EndsEarly (trim rest)

theorem readConst_append (rest : List Char) :
    readConst (constWords ++ rest) = readBody (trim rest) := by
  rw [readConst, if_pos (startsWith_append ..), List.drop_left]

theorem readConst_eq_broken (line : List Char) : readConst line = .broken ↔ Breaks line := by
  constructor
  · intro broken
    by_cases starts : startsWith constWords line = true
    · obtain ⟨rest, rfl⟩ := List.isPrefixOf_iff_prefix.mp starts
      rw [readConst_append, readBody_eq_broken] at broken
      exact ⟨rest, rfl, broken⟩
    · rw [readConst, if_neg starts] at broken
      cases broken
  · rintro ⟨rest, rfl, breaks⟩
    rw [readConst_append, readBody_eq_broken]
    exact breaks

theorem mergeLine_eq_none (m : Merged) (line : List Char) :
    mergeLine m line = none ↔ Breaks (trim line) := by
  rw [← readConst_eq_broken, mergeLine]
  cases readConst (trim line) with
  | nothing => simp
  | broken => simp
  | constant name value =>
    dsimp only
    split <;> simp

/-- Merging breaks off at a line that breaks, and at no other. -/
theorem mergeLines_eq_none (ls : List (List Char)) (m : Merged) :
    mergeLines m ls = none ↔ ∃ line ∈ ls, Breaks (trim line) := by
  induction ls generalizing m with
  | nil => simp [mergeLines]
  | cons line ls ih =>
    rw [mergeLines]
    cases h : mergeLine m line with
    | none =>
      have breaks := (mergeLine_eq_none m line).mp h
      simp [breaks]
    | some m' =>
      have reads : ¬ Breaks (trim line) := by
        rw [← mergeLine_eq_none m line, h]
        simp
      simp only [ih, List.mem_cons, exists_eq_or_imp, reads, false_or]

/-- Whatever a user's file holds, each position that reading a line cuts at is a boundary of
characters, and a value starts before it ends unless the last semicolon of its line stands before
the first equals sign. So merging a file, into any values, gives values unless it has a line like
that, and so does a build come to its end. -/
theorem files_merge_unless_value_ends_early (values : Values) (content rest : List Char)
    (shown : String) :
    (readConst (constWords ++ rest) = cutBody (trim rest) ∧ Cuts (trim rest) ∧
      (readConst (constWords ++ rest) = .broken ↔ ':' ∈ trim rest ∧ EndsEarly (trim rest))) ∧
    ((merge values content).isSome = true ↔ ∀ line ∈ lines content, ¬ Breaks (trim line)) ∧
    ((build shown (.content content)).isSome = true ↔
      ∀ line ∈ lines content, ¬ Breaks (trim line)) := by
  have merges : ∀ vs, (merge vs content).isSome = true ↔
      ∀ line ∈ lines content, ¬ Breaks (trim line) := by
    intro vs
    rw [Option.isSome_iff_ne_none, ne_eq, merge, mergeLines_eq_none]
    simp
  constructor
  · rw [readConst_append]
    exact ⟨readBody_eq_cutBody _, cuts _, readBody_eq_broken _⟩
  · constructor
    · exact merges values
    · rw [build, Option.isSome_map]
      exact merges .defaults

/-- Separators in any order and wide characters next to them are read without breaking off, and an
array type whose value is on the next line is not. -/
theorem strange_file_merges_and_array_breaks :
    let strange :=
      "pub const =\u00fc;: 1\npub const \u00e9\u2003:=;;\npub const A; B = 1\n// =\r".toList
    let table := "TABLE: [u8; 2] =".toList
    let line := constWords ++ table
    (merge .defaults strange).isSome = true ∧ (∀ l ∈ lines strange, ¬ Breaks (trim l)) ∧
      Breaks line ∧ (build "user" (.content line)).isSome = false := by
  intro strange table line
  obtain ⟨-, merges, -⟩ := files_merge_unless_value_ends_early .defaults strange [] "user"
  obtain ⟨⟨-, -, reads⟩, -, builds⟩ :=
    files_merge_unless_value_ends_early .defaults line table "user"
  have merged : (merge .defaults strange).isSome = true := by decide +kernel
  have broken : readConst line = .broken := by decide +kernel
  have breaks : Breaks line := ⟨table, rfl, reads.mp broken⟩
  refine ⟨merged, merges.mp merged, breaks, ?_⟩
  rw [Bool.eq_false_iff, ne_eq, builds]
  intro all_read
  apply all_read line
  · decide +kernel
  · have whole : trim line = line := by decide +kernel
    rw [whole]
    exact breaks

/-- A user's file with an array whose value begins on the next line breaks the build off. -/
theorem array_type_breaks_build :
    let content :=
      "pub const TABLE: [u8; 2] =\n    [1, 2];\npub const MAX_EVENTS: usize = 512;\n".toList
    merge .defaults content = none ∧ (build "user" (.content content)).isNone = true := by
  decide +kernel

end Fibers.Config
