import Std.Data.TreeMap
import Sightline.Single.Reading
import Sightline.Text.Characters
import Sightline.Text.Split

/-!
# Exempt spells

Some spells need no sight. Their numbers come in a list with commas, in which blanks and quotation
marks around the list and around each number say nothing. What is no number is passed over.
-/
namespace Sightline

structure Exemptions where
  spells : Std.TreeMap UInt32 Unit := ∅

namespace Exemptions

def isQuoteOrSpace (c : Char) : Bool := c = ' ' || c = '"' || c = '\''

def isLineEnd (c : Char) : Bool := c = '\r' || c = '\n'

/-- Drops quotation marks and spaces around text, and ends of lines behind it. -/
def strip (text : List Char) : List Char :=
  Text.trimBy isQuoteOrSpace (fun c => isQuoteOrSpace c || isLineEnd c) text

/-- A number of 32 bits in decimal digits, which may have a plus sign in front. -/
def number? (text : List Char) : Option UInt32 :=
  let digits := match text with
    | '+' :: rest => rest
    | _ => text
  if digits.isEmpty || !digits.all Single.isDigit then none
  else
    let value := Single.digitsValue digits
    if value < UInt32.size then some (UInt32.ofNat value) else none

def numbers (list : String) : List UInt32 :=
  (Text.split ',' (strip list.toList)).filterMap fun piece => number? (strip piece)

/-- Forgets all spells. -/
def clear (e : Exemptions) : Exemptions := { e with spells := ∅ }

def insert (e : Exemptions) (spell : UInt32) : Exemptions := { e with spells := e.spells.insert spell () }

/-- Exempts the spells of a list, in the place of all former ones. -/
def assign (e : Exemptions) (list : String) : Exemptions := (numbers list).foldl insert e.clear

def ofList (list : String) : Exemptions := ({} : Exemptions).assign list

/-- Sight is checked for every spell that is not exempt. -/
def checksSight (e : Exemptions) (spell : UInt32) : Bool := !e.spells.contains spell

end Exemptions

end Sightline
