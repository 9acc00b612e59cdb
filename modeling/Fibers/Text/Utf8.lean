/-!
The text of bytes that may not be valid UTF-8. What cannot be the start of a character, or is the
start of one that breaks off, reads as one replacement character.
-/

namespace Fibers.Text

/-- The character that stands for what cannot be read. -/
def replacement : Char := '\uFFFD'

/-- What a first byte promises: how many bytes follow, the bits it contributes, and the range of the
byte after it. -/
structure Lead where
  following : Nat
  bits : Nat
  low : Nat
  high : Nat
  deriving DecidableEq, Inhabited, Repr

/-- What a byte promises as the first one of a character of several bytes. -/
def lead? (b : Nat) : Option Lead :=
  if 0xc2 ≤ b ∧ b ≤ 0xdf then some ⟨1, b % 32, 0x80, 0xbf⟩
  else if b = 0xe0 then some ⟨2, 0, 0xa0, 0xbf⟩
  else if b = 0xed then some ⟨2, 13, 0x80, 0x9f⟩
  else if 0xe1 ≤ b ∧ b ≤ 0xef then some ⟨2, b % 16, 0x80, 0xbf⟩
  else if b = 0xf0 then some ⟨3, 0, 0x90, 0xbf⟩
  else if 0xf1 ≤ b ∧ b ≤ 0xf3 then some ⟨3, b % 8, 0x80, 0xbf⟩
  else if b = 0xf4 then some ⟨3, 4, 0x80, 0x8f⟩
  else none

/-- Reads the bytes that follow a first one: the code point, or nothing where one of them does not
fit, and the rest. -/
def readFollowing : (following bits low high : Nat) → List Nat → Option Nat × List Nat
  | 0, bits, _, _, rest => (some bits, rest)
  | _ + 1, _, _, _, [] => (none, [])
  | n + 1, bits, low, high, b :: rest =>
    if low ≤ b ∧ b ≤ high then readFollowing n (bits * 64 + b % 64) 0x80 0xbf rest
    else (none, b :: rest)

/-- Reads one character, which starts with a given byte. -/
def readChar (b : Nat) (rest : List Nat) : Char × List Nat :=
  if b < 0x80 then (Char.ofNat b, rest)
  else
    match lead? b with
    | none => (replacement, rest)
    | some l =>
      match readFollowing l.following l.bits l.low l.high rest with
      | (some n, rest) => (Char.ofNat n, rest)
      | (none, rest) => (replacement, rest)

theorem length_readFollowing_le (n bits low high : Nat) (bs : List Nat) :
    (readFollowing n bits low high bs).2.length ≤ bs.length := by
  induction n generalizing bits low high bs with
  | zero => simp [readFollowing]
  | succ n ih =>
    cases bs with
    | nil => simp [readFollowing]
    | cons b rest =>
      simp only [readFollowing]
      split
      · exact Nat.le_trans (ih _ _ _ rest) (by simp)
      · simp

theorem length_readChar_le (b : Nat) (rest : List Nat) :
    (readChar b rest).2.length ≤ rest.length := by
  simp only [readChar]
  split
  · simp
  · split
    · simp
    · rename_i l _
      have h := length_readFollowing_le l.following l.bits l.low l.high rest
      split <;> simp_all

/-- Reads all characters. -/
def readChars : List Nat → List Char
  | [] => []
  | b :: rest => (readChar b rest).1 :: readChars (readChar b rest).2
  termination_by bs => bs.length
  decreasing_by
    have h := length_readChar_le b rest
    simp only [List.length_cons]
    omega

/-- The text of bytes. -/
def ofBytes (bytes : List UInt8) : String := String.ofList (readChars (bytes.map UInt8.toNat))

end Fibers.Text
