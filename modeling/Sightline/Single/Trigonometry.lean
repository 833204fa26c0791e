import Sightline.Single.Arithmetic

/-!
# Sine and cosine

The platform computes sine and cosine, and how precise they are is left to it: they may miss the nearest
word by the last bit. The functions here answer the nearest word, which is one choice among those that a
platform may make. No result depends on the last bit: what is shown of placed boxes and of files holds of
any rounding in the place of this one.

Both functions work on fixed point numbers with 640 fraction bits and round the result once to single
precision. The angle, an exact fixed point number, is reduced by whole quarter turns; the turn comes
from Machin's sum of two arctangents. The error of the reduction stays below `2 ^ -500` for every
finite angle, far below the distance of a sine from the middle between two words, zero apart, which
is answered exactly.
-/
namespace Sightline.Single

/-- One, as a fixed point number. -/
def fixedOne : Int := (1 <<< 640 : Nat)

/-- The arctangent of `1 / n`: the powers of `1 / n` with odd exponents, divided by these exponents,
with alternating signs. -/
def arctanOfInverse (terms n : Nat) : Int := go terms 1 (fixedOne / n)
where
  go : Nat → Nat → Int → Int
    | 0, _, _ => 0
    | terms + 1, exponent, power =>
      power / exponent - go terms (exponent + 2) (power / ((n : Int) * n))

/-- A quarter turn. Each term of the first series gains more than four bits. -/
def quarterTurn : Int := 2 * (4 * arctanOfInverse 160 5 - arctanOfInverse 160 239)

/-- The alternating series whose terms grow from `first` by `angle ^ 2 / (k * (k + 1))`. -/
def alternatingSeries (angle first : Int) (start : Nat) : Int :=
  go (angle * angle / fixedOne) 100 start first
where
  go (square : Int) : Nat → Nat → Int → Int
    | 0, _, _ => 0
    | terms + 1, k, term => term - go square terms (k + 2) (term * square / fixedOne / (k * (k + 1)))

def fixedSine (angle : Int) : Int := alternatingSeries angle angle 2

def fixedCosine (angle : Int) : Int := alternatingSeries angle fixedOne 1

/-- The sine of an angle to which `quarters` quarter turns are added. -/
def sineOfTurned (angle : Int) (quarters : Int) : Int :=
  let whole := (angle + quarterTurn / 2) / quarterTurn
  let rest := angle - whole * quarterTurn
  match (whole + quarters) % 4 with
  | 0 => fixedSine rest
  | 1 => fixedCosine rest
  | 2 => -fixedSine rest
  | _ => -fixedCosine rest

def toFixed (x : Single) : Int := x.signedUnits * (1 <<< (640 - 149) : Nat)

def ofFixed (value : Int) : Single :=
  ofUnits (decide (value < 0)) (value.natAbs * unit) (1 <<< 640)

/-- The sine of an angle in radians, as the nearest word. The last bit is up to the platform, and no result
depends on it. -/
def sin (x : Single) : Single :=
  if x.isNaN then x.quiet
  else if x.isInfinite then noValue
  else if x.magnitude = 0 then x
  else ofFixed (sineOfTurned x.toFixed 0)

/-- The cosine of an angle in radians, a sine advanced by a quarter turn. Its last bit is up to the
platform as well. -/
def cos (x : Single) : Single :=
  if x.isNaN then x.quiet
  else if x.isInfinite then noValue
  else if x.magnitude = 0 then 1
  else ofFixed (sineOfTurned x.toFixed 1)

end Sightline.Single
