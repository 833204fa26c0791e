import Sightline.Single.Rounding

/-!
# Arithmetic on single precision words

Every operation computes the exact result on whole numbers of units and rounds once. An operand that
is not a number is passed on in its quiet form, the first one first; an operation without a value,
such as the difference of two infinities, gives `noValue`.
-/
namespace Sightline.Single

/-- Passes on an operand that is not a number, and otherwise computes. -/
def binary (compute : Single → Single → Single) (x y : Single) : Single :=
  if x.isNaN then x.quiet else if y.isNaN then y.quiet else compute x y

/-- The sum of two numbers. An exact sum of zero is positive unless both operands are negative. -/
def addNumbers (x y : Single) : Single :=
  if x.isInfinite then if y.isInfinite && x.negative != y.negative then noValue else x
  else if y.isInfinite then y
  else
    let sum := x.signedUnits + y.signedUnits
    if sum = 0 then ofRank (x.negative && y.negative) 0
    else ofUnits (decide (sum < 0)) sum.natAbs 1

def mulNumbers (x y : Single) : Single :=
  let negative := x.negative != y.negative
  if x.isInfinite || y.isInfinite then
    if x.magnitude = 0 || y.magnitude = 0 then noValue else ofRank negative infinityRank
  else ofUnits negative (x.units * y.units) unit

def divNumbers (x y : Single) : Single :=
  let negative := x.negative != y.negative
  if x.isInfinite then if y.isInfinite then noValue else ofRank negative infinityRank
  else if y.isInfinite then ofRank negative 0
  else if y.magnitude = 0 then
    if x.magnitude = 0 then noValue else ofRank negative infinityRank
  else ofUnits negative (x.units * unit) y.units

instance : Add Single where
  add := binary addNumbers

/-- Subtraction adds the negated number; an operand that is not a number keeps its sign. -/
instance : Sub Single where
  sub := binary fun x y => addNumbers x (-y)

instance : Mul Single where
  mul := binary mulNumbers

instance : Div Single where
  div := binary divNumbers

/-! ### Square root -/

/-- The greatest number whose square is at most `n`, by deciding its bits from the top. -/
def wholeRoot (n : Nat) : Nat := go (n.log2 / 2 + 1) 0
where
  go : Nat → Nat → Nat
    | 0, root => root
    | bit + 1, root =>
      let candidate := root + 1 <<< bit
      go bit (if candidate * candidate ≤ n then candidate else root)

/-- The whole root in units and one bit that tells whether the root is exact decide the rounding: the
spacing of the words near a root is at least two units. -/
def sqrt (x : Single) : Single :=
  if x.isNaN then x.quiet
  else if x.magnitude = 0 then x
  else if x.negative then noValue
  else if x.isInfinite then x
  else
    let square := x.units * unit
    let root := wholeRoot square
    ofUnits false (2 * root + if root * root = square then 0 else 1) 2

/-! ### Whole numbers and literals -/

def ofNat (n : Nat) : Single := ofUnits false (n * unit) 1

def ofInt (n : Int) : Single := ofUnits (decide (n < 0)) (n.natAbs * unit) 1

/-- The value without its fraction; infinities stop at the given bound. -/
def truncate (bound : Nat) (x : Single) : Nat :=
  if x.isInfinite then bound else min bound (x.units / unit)

/-- The whole part as a word of 32 bits: zero below zero and for what is not a number, the greatest
word above its range. -/
def toWord (x : Single) : UInt32 :=
  if x.isNaN || x.negative then 0 else UInt32.ofNat (x.truncate 0xffffffff)

/-- The whole part as a signed number of 32 bits, stopping at the ends of the range. -/
def toSigned (x : Single) : Int :=
  if x.isNaN then 0
  else if x.negative then -(x.truncate 0x80000000 : Int)
  else x.truncate 0x7fffffff

/-- The word nearest to `digits * 10 ^ exponent`. -/
def ofDecimal (negative : Bool) (digits : Nat) (exponent : Int) : Single :=
  ofUnits negative (digits * Nat.pow 10 exponent.toNat * unit) (Nat.pow 10 (-exponent).toNat)

instance : OfScientific Single where
  ofScientific digits down exponent :=
    ofDecimal false digits (if down then -(exponent : Int) else exponent)

instance (n : Nat) : OfNat Single n where
  ofNat := ofNat n

end Sightline.Single
