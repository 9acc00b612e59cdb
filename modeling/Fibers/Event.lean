/-!
Readiness events of a descriptor. An event value is a set with at most the two members `read` and
`write`; as a number `read` is bit 0 and `write` is bit 2, and every other bit is ignored.
-/

namespace Fibers

/-- A set of readiness events. -/
structure Event where
  read : Bool
  write : Bool
  deriving DecidableEq, Inhabited, Repr

namespace Event

def none : Event := ⟨false, false⟩

def readable : Event := ⟨true, false⟩

def writable : Event := ⟨false, true⟩

def both : Event := ⟨true, true⟩

/-- The set whose members are the known bits of `n`. -/
def ofBits (n : Nat) : Event := ⟨n.testBit 0, n.testBit 2⟩

def toBits (e : Event) : Nat := (if e.read then 1 else 0) + (if e.write then 4 else 0)

def union (a b : Event) : Event := ⟨a.read || b.read, a.write || b.write⟩

def inter (a b : Event) : Event := ⟨a.read && b.read, a.write && b.write⟩

def compl (a : Event) : Event := ⟨!a.read, !a.write⟩

/-- The members of `a` that are not in `b`. -/
def without (a b : Event) : Event := ⟨a.read && !b.read, a.write && !b.write⟩

def isEmpty (a : Event) : Bool := !a.read && !a.write

/-- Whether `b` is a nonempty subset of `a`. -/
def contains (a b : Event) : Bool := !b.isEmpty && (b.without a).isEmpty

def intersects (a b : Event) : Bool := !(a.inter b).isEmpty

/-- Whether the set has exactly one member. -/
def isSingle (a : Event) : Bool := a.read != a.write

def render (a : Event) : String :=
  match a.read, a.write with
  | false, false => "NONE"
  | true, false => "READ"
  | false, true => "WRITE"
  | true, true => "READ|WRITE"

@[simp] theorem contains_none (a : Event) : a.contains none = false := rfl

@[simp] theorem contains_readable (a : Event) : a.contains readable = a.read := by
  cases a with | mk r w => cases r <;> cases w <;> rfl

@[simp] theorem contains_writable (a : Event) : a.contains writable = a.write := by
  cases a with | mk r w => cases r <;> cases w <;> rfl

@[simp] theorem ofBits_toBits (a : Event) : ofBits a.toBits = a := by
  cases a with | mk r w => cases r <;> cases w <;> rfl

end Event

end Fibers
