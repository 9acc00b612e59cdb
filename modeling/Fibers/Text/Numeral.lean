/-!
Decimal numerals of bounded integers: an optional sign (a minus sign only where negative numbers
exist), then one or more of the digits 0 to 9, and a value within the bounds.
-/

namespace Fibers.Text

/-- A range of machine integers. -/
structure IntRange where
  low : Int
  high : Int
  deriving DecidableEq, Repr

namespace IntRange

/-- The integers of `bits` bits without a sign. -/
def unsigned (bits : Nat) : IntRange := ⟨0, Nat.pow 2 bits - 1⟩

/-- The integers of `bits` bits with a sign. -/
def signed (bits : Nat) : IntRange := ⟨-Int.pow 2 (bits - 1), Int.pow 2 (bits - 1) - 1⟩

def contains (r : IntRange) (n : Int) : Bool := r.low ≤ n && n ≤ r.high

end IntRange

/-- The value of a digit. -/
def digit? (c : Char) : Option Nat :=
  if '0' ≤ c ∧ c ≤ '9' then some (c.toNat - '0'.toNat) else none

/-- The value of a row of digits, read after `acc`. -/
def digits? (acc : Nat) : List Char → Option Nat
  | [] => some acc
  | c :: cs =>
    match digit? c with
    | some d => digits? (10 * acc + d) cs
    | none => none

/-- The value of a nonempty row of digits. -/
def natural? : List Char → Option Nat
  | [] => none
  | cs => digits? 0 cs

/-- The integer a numeral stands for, if it lies in the range. -/
def integer? (range : IntRange) (cs : List Char) : Option Int :=
  let value :=
    match cs with
    | '+' :: ds => (natural? ds).map Int.ofNat
    | '-' :: ds => if range.low < 0 then (natural? ds).map (fun n => -Int.ofNat n) else none
    | ds => (natural? ds).map Int.ofNat
  value.filter range.contains

end Fibers.Text
