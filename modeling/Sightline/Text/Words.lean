import Sightline.Text.Characters
import Sightline.Text.Split

/-!
# Lines and words

`lines` cuts text at line feeds; a carriage return before a line feed belongs to it. `words` cuts a
line at white space. A word that begins with a quotation mark goes on to the next one, or to the end
of the line, whatever stands between; a mark inside a word is a character like others.
-/
namespace Sightline.Text

/-- Drops a carriage return at the end. -/
def dropReturn (line : List Char) : List Char :=
  if line.getLast? = some '\r' then line.dropLast else line

/-- The lines of a text. After a line feed at the end of the text there is one more, empty line. -/
def lines (text : List Char) : List (List Char) :=
  let parts := split '\n' text
  parts.dropLast.map dropReturn ++ parts.getLast?.toList

/-- Cuts off the comment of a line, which two slashes begin. -/
def beforeComment : List Char → List Char
  | '/' :: '/' :: _ => []
  | c :: rest => c :: beforeComment rest
  | [] => []

/-- Where a reader of words stands: between words or in a word, whose characters so far are kept with
the last one first. -/
inductive WordState where
  | between
  | plain (word : List Char)
  | quoted (word : List Char)
deriving DecidableEq, Repr

/-- The words from a state on. -/
def wordsFrom : WordState → List Char → List (List Char)
  | .between, [] => []
  | .plain word, [] => [word.reverse]
  | .quoted word, [] => [word.reverse]
  | .between, c :: rest =>
    if isBlank c then wordsFrom .between rest
    else if c = '"' then wordsFrom (.quoted []) rest
    else wordsFrom (.plain [c]) rest
  | .plain word, c :: rest =>
    if isBlank c then word.reverse :: wordsFrom .between rest
    else wordsFrom (.plain (c :: word)) rest
  | .quoted word, c :: rest =>
    if c = '"' then word.reverse :: wordsFrom .between rest
    else wordsFrom (.quoted (c :: word)) rest

def words (line : List Char) : List (List Char) := wordsFrom .between line

end Sightline.Text
