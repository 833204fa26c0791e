/-!
# Single precision words

A `Single` is a 32-bit floating point word. Files keep words bit for bit, so a word is its bits: the
two zeros and the many words that are not a number stay apart. Comparison goes through `rank`, the
place of a word on the number line of all words: `-∞` has the least rank, `+∞` the greatest, and both
zeros have rank zero.
-/
namespace Sightline

structure Single where
  bits : UInt32
deriving DecidableEq, Repr

namespace Single

/-- The rank of positive infinity. Greater magnitudes belong to words that are not a number. -/
def infinityRank : Nat := 0x7f800000

/-- The rank of the greatest finite word. -/
def greatestRank : Nat := 0x7f7fffff

def negative (x : Single) : Bool := 0x80000000 ≤ x.bits

/-- The bits below the sign. For words of one sign they grow with the absolute value. -/
def magnitude (x : Single) : Nat := x.bits.toNat % 0x80000000

def rank (x : Single) : Int := if x.negative then -(x.magnitude : Int) else x.magnitude

def isNaN (x : Single) : Bool := infinityRank < x.magnitude

def isInfinite (x : Single) : Bool := x.magnitude = infinityRank

def isFinite (x : Single) : Bool := x.magnitude < infinityRank

/-- The word of the given sign and magnitude; magnitudes past infinity stop there. -/
def ofRank (negative : Bool) (magnitude : Nat) : Single :=
  ⟨UInt32.ofNat (min magnitude infinityRank + if negative then 0x80000000 else 0)⟩

def zero : Single := ⟨0⟩

def infinity : Single := ⟨0x7f800000⟩

def negativeInfinity : Single := ⟨0xff800000⟩

/-- The result of an operation that has no value. -/
def noValue : Single := ⟨0xffc00000⟩

/-- The quiet form of a word that is not a number. -/
def quiet (x : Single) : Single := ⟨x.bits ||| 0x00400000⟩

/-- Turns the sign bit, also of words that are not a number. -/
instance : Neg Single where
  neg x := ⟨x.bits ^^^ 0x80000000⟩

def abs (x : Single) : Single := ⟨x.bits &&& 0x7fffffff⟩

/-! ### Comparison -/

/-- Nothing is less than a word that is not a number, and it is less than nothing. -/
instance : LT Single where
  lt x y := x.isNaN = false ∧ y.isNaN = false ∧ x.rank < y.rank

instance : LE Single where
  le x y := x.isNaN = false ∧ y.isNaN = false ∧ x.rank ≤ y.rank

instance (x y : Single) : Decidable (x < y) :=
  inferInstanceAs (Decidable (x.isNaN = false ∧ y.isNaN = false ∧ x.rank < y.rank))

instance (x y : Single) : Decidable (x ≤ y) :=
  inferInstanceAs (Decidable (x.isNaN = false ∧ y.isNaN = false ∧ x.rank ≤ y.rank))

/-- Equality of values: the zeros agree, and a word that is not a number differs from itself. -/
def Same (x y : Single) : Prop := x.isNaN = false ∧ y.isNaN = false ∧ x.rank = y.rank

instance (x y : Single) : Decidable (x.Same y) :=
  inferInstanceAs (Decidable (x.isNaN = false ∧ y.isNaN = false ∧ x.rank = y.rank))

/-- The lesser of two words, or the one that is a number. Of the two zeros the first stays. -/
instance : Min Single where
  min x y := if x.isNaN then y else if y < x then y else x

/-- The greater of two words, or the one that is a number. Of the two zeros the first stays. -/
instance : Max Single where
  max x y := if x.isNaN then y else if x < y then y else x

theorem lt_iff {x y : Single} :
    x < y ↔ x.isNaN = false ∧ y.isNaN = false ∧ x.rank < y.rank := Iff.rfl

theorem le_iff {x y : Single} :
    x ≤ y ↔ x.isNaN = false ∧ y.isNaN = false ∧ x.rank ≤ y.rank := Iff.rfl

theorem min_eq (x y : Single) : min x y = if x.isNaN then y else if y < x then y else x := rfl

theorem max_eq (x y : Single) : max x y = if x.isNaN then y else if x < y then y else x := rfl

end Single

end Sightline
