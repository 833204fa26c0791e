import Sightline.Single.Arithmetic

/-!
# Reading single precision words from text

`ofText?` accepts an optional sign followed by `inf`, `infinity` or `nan` in any case, or by decimal
digits with at most one point and an optional exponent. At least one digit stands beside the point,
and nothing may stand before or after. The word is the one nearest to the exact decimal.
-/
namespace Sightline.Single

def isDigit (c : Char) : Bool := '0' ≤ c && c ≤ '9'

def digitValue (c : Char) : Nat := c.toNat - '0'.toNat

/-- The number written by decimal digits. -/
def digitsValue (digits : List Char) : Nat :=
  digits.foldl (fun value c => 10 * value + digitValue c) 0

/-- Splits off a leading sign; `true` is minus. -/
def splitSign : List Char → Bool × List Char
  | '-' :: rest => (true, rest)
  | '+' :: rest => (false, rest)
  | text => (false, text)

/-- The value of an exponent part, which is empty or the letter `e` followed by a signed number. -/
def exponent? : List Char → Option Int
  | [] => some 0
  | c :: rest =>
    let (minus, digits) := splitSign rest
    if (c = 'e' || c = 'E') && !digits.isEmpty && digits.all isDigit then
      some (if minus then -(digitsValue digits : Int) else digitsValue digits)
    else none

/-- The word nearest to `digits * 10 ^ exponent`, without computing powers beyond the range: from
`10 ^ 39` on every number rounds to infinity, and below `10 ^ -46` to zero. -/
def ofLongDecimal (negative : Bool) (digits : List Char) (exponent : Int) : Single :=
  let value := digitsValue digits
  -- the number of digits without leading zeros
  let size := (digits.dropWhile (· = '0')).length
  if value = 0 then ofRank negative 0
  else if 40 < exponent + size then ofRank negative infinityRank
  else if exponent + size < -50 then ofRank negative 0
  else ofDecimal negative value exponent

def decimal? (negative : Bool) (text : List Char) : Option Single :=
  let whole := text.takeWhile isDigit
  let afterWhole := text.dropWhile isDigit
  let (fraction, rest) := match afterWhole with
    | '.' :: rest => (rest.takeWhile isDigit, rest.dropWhile isDigit)
    | rest => ([], rest)
  if whole.isEmpty && fraction.isEmpty then none
  else (exponent? rest).map fun exponent =>
    ofLongDecimal negative (whole ++ fraction) (exponent - fraction.length)

def ofText? (text : List Char) : Option Single :=
  let (negative, rest) := splitSign text
  match String.ofList (rest.map Char.toLower) with
  | "inf" | "infinity" => some (ofRank negative infinityRank)
  | "nan" => some (if negative then -⟨0x7fc00000⟩ else ⟨0x7fc00000⟩)
  | _ => decimal? negative rest

end Sightline.Single
