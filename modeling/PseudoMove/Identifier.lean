import PseudoMove.Text.Digit
import PseudoMove.Text.Case
import PseudoMove.Text.Blank
/-!
# Identifiers

What may be used as a name in pseudo-source, how any text is made into a name, and how a type's name
in camel case becomes a variable's name in snake case.
-/

namespace PseudoMove.Identifier

open PseudoMove.Text

/-- A character that may stand in an identifier after the first one. -/
def isPart (c : Char) : Bool := isAlphanumeric c || c == '_'

/-- An identifier starts with a letter or an underscore, and goes on with letters, numbers and
underscores. -/
def isValid : List Char → Bool
  | [] => false
  | c :: s => (isAlphabetic c || c == '_') && s.all isPart

/-- A text without underscores at either end. -/
def trimBars (s : List Char) : List Char := dropEndWhile (· == '_') (s.dropWhile (· == '_'))

/-- The identifier that stands for a text. A valid one stands for itself; in any other every foreign
character becomes an underscore, underscores at the ends go, and one is put back in front if nothing
else is left or a number comes first. -/
def sanitize (s : List Char) : List Char :=
  if isValid s then s
  else
    let r := trimBars (s.map fun c => if isPart c then c else '_')
    if r.head?.all isNumeric then '_' :: r else r

/-! ### Snake case -/

/-- Whether a new word begins at an upper-case letter: it does after a lower-case letter or a digit,
and after another upper-case letter if a lower-case one follows. -/
def startsWord (prev next : Option Char) : Bool :=
  match prev with
  | none => false
  | some p =>
    if isLowercase p || p.isDigit then true
    else isUppercase p && next.any isLowercase

/-- Snake case from the middle of a text, after the character `prev`; `barred` says that the result so
far ends with an underscore. -/
def snakeFrom (prev : Option Char) (barred : Bool) : List Char → List Char
  | [] => []
  | c :: s =>
    if isUppercase c then
      let bar := if startsWord prev s.head? && !barred then ['_'] else []
      bar ++ lowerChar c ++ snakeFrom (some c) false s
    else if c = ' ' ∨ c = '-' then
      (if barred then [] else ['_']) ++ snakeFrom (some c) true s
    else c :: snakeFrom (some c) (c == '_') s

/-- A text in snake case: upper-case letters become lower-case ones, with an underscore where a word
begins; spaces and hyphens become underscores, one at most between words. -/
def snakeCase (s : List Char) : List Char := snakeFrom none false s

end PseudoMove.Identifier
