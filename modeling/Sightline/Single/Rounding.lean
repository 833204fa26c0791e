import Sightline.Single.Basic

/-!
# Rounding to single precision

Finite words are whole multiples of the least positive one, so a magnitude is a natural number of
such units. `gridUnits` gives the units of each rank and continues past the greatest finite word with
the same pattern; overflow is then rounding like any other, and `ofRank` turns every rank past the
end into infinity. `nearestRank` finds the rank nearest to a quotient; of two equally near ranks it
takes the even one.
-/
namespace Sightline.Single

/-- One is this many units. -/
def unit : Nat := 1 <<< 149

/-- The units of the word at a rank: a fraction below `2 ^ 23`, then 23 fraction bits an exponent. -/
def gridUnits (rank : Nat) : Nat :=
  if rank < 0x800000 then rank else (0x800000 + rank % 0x800000) <<< (rank / 0x800000 - 1)

/-- The rank nearest to `num / den` units, ties to the even rank. -/
def nearestRank (num den : Nat) : Nat :=
  -- the spacing of words around the quotient, as a power of two
  let step := (num / den).log2 - 23
  let spacing := den <<< step
  let below := num / spacing
  let rest := num % spacing
  let up := spacing < 2 * rest ∨ (2 * rest = spacing ∧ below % 2 = 1)
  step * 0x800000 + below + if up then 1 else 0

/-- The word nearest to `num / den` units, with the given sign. -/
def ofUnits (negative : Bool) (num den : Nat) : Single := ofRank negative (nearestRank num den)

/-- The absolute value in units. -/
def units (x : Single) : Nat := gridUnits x.magnitude

/-- The value in units. -/
def signedUnits (x : Single) : Int := if x.negative then -(x.units : Int) else x.units

end Sightline.Single
