import Sightline.Single.Arithmetic

/-!
# Decimal text of single precision words

`shortest` selects the fewest decimal digits that round to a word; of two candidates of that length it
takes the nearer one, and the greater one when they are equally near. `toText` writes them without an
exponent. `toFixedText` rounds the exact value to a given number of places, ties to the even digit.
-/
namespace Sightline.Single

/-- A decimal number `digits * 10 ^ exponent`. -/
structure Decimal where
  digits : Nat
  exponent : Int
deriving DecidableEq, Repr

namespace Decimal

/-- The decimal in units, as a numerator and a denominator. -/
def numerator (d : Decimal) : Nat := d.digits * Nat.pow 10 d.exponent.toNat * unit

def denominator (d : Decimal) : Nat := Nat.pow 10 (-d.exponent).toNat

/-- A decimal reads back to a rank if that rank is the nearest to it. -/
def ReadsBack (d : Decimal) (rank : Nat) : Prop := nearestRank d.numerator d.denominator = rank

instance (d : Decimal) (rank : Nat) : Decidable (d.ReadsBack rank) :=
  inferInstanceAs (Decidable (_ = _))

/-- Moves trailing zeros from the digits to the exponent, at most as many as given. -/
def strip : Nat → Decimal → Decimal
  | 0, d => d
  | zeros + 1, d =>
    if d.digits % 10 = 0 then strip zeros ⟨d.digits / 10, d.exponent + 1⟩ else d

/-- Writes the number without an exponent, with at least the given number of places. -/
def toText (d : Decimal) : String :=
  if 0 ≤ d.exponent then toString (d.digits * Nat.pow 10 d.exponent.toNat)
  else
    let places := (-d.exponent).toNat
    let digits := (Nat.toDigits 10 d.digits)
    let padded := List.replicate (places + 1 - digits.length) '0' ++ digits
    let whole := padded.length - places
    String.ofList (padded.take whole ++ '.' :: padded.drop whole)

end Decimal

/-- The decimals next to `units` on the grid of `10 ^ exponent` that read back to the rank, the
preferred one first. -/
def candidates (units rank : Nat) (exponent : Int) : List Decimal :=
  -- the value measured in steps of the grid is `num / den`
  let num := units * Nat.pow 10 (-exponent).toNat
  let den := unit * Nat.pow 10 exponent.toNat
  let below : Decimal := ⟨num / den, exponent⟩
  let above : Decimal := ⟨num / den + 1, exponent⟩
  let ordered := if den ≤ 2 * (num % den) then [above, below] else [below, above]
  ordered.filter fun d => decide (d.ReadsBack rank)

/-- The least exponent of ten whose power exceeds the value. The least positive word is above
`10 ^ -45`, the greatest below `10 ^ 39`. -/
def decimalScale (units : Nat) : Int :=
  let exponents := (List.range 84).map fun (k : Nat) => (k : Int) - 44
  (exponents.find? fun k => units * Nat.pow 10 (-k).toNat < unit * Nat.pow 10 k.toNat).getD 39

/-- The fewest digits that read back to the absolute value of a finite word. Nine always suffice. -/
def shortest (x : Single) : Decimal :=
  if x.magnitude = 0 then ⟨0, 0⟩
  else
    let scale := decimalScale x.units
    let grids := (List.range 9).map fun (n : Nat) => scale - n - 1
    ((grids.findSome? fun e => (candidates x.units x.magnitude e).head?).getD ⟨x.units, 0⟩).strip 10

/-- Puts the sign before the text of an absolute value. -/
def signed (x : Single) (text : String) : String := if x.negative then "-" ++ text else text

def toText (x : Single) : String :=
  if x.isNaN then "NaN"
  else if x.isInfinite then x.signed "inf"
  else x.signed x.shortest.toText

/-- The quotient rounded to a whole number, ties to the even one. -/
def nearestWhole (num den : Nat) : Nat :=
  let below := num / den
  let rest := num % den
  if den < 2 * rest ∨ (2 * rest = den ∧ below % 2 = 1) then below + 1 else below

/-- The exact value rounded to a fixed number of decimal places. -/
def toFixedText (places : Nat) (x : Single) : String :=
  if x.isNaN then "NaN"
  else if x.isInfinite then x.signed "inf"
  else x.signed (Decimal.toText ⟨nearestWhole (x.units * Nat.pow 10 places) unit, -(places : Int)⟩)

end Sightline.Single
