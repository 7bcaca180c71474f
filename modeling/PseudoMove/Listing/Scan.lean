import PseudoMove.Text.Blank
import PseudoMove.Text.Digit
import PseudoMove.Text.Search
/-!
# Scanning a line

The pieces that line patterns are made of. A scanner takes the characters of a line and returns what it
read with what is left, or `none`. Names in a listing are ASCII; blanks and digits are not restricted
to ASCII.
-/

namespace PseudoMove.Listing

open PseudoMove.Text

/-- A character that begins a name. -/
def isNameStart (c : Char) : Bool := c.isAlpha || c == '_'

/-- A character that continues a name. -/
def isNamePart (c : Char) : Bool := c.isAlphanum || c == '_'

/-- Reads the longest name. -/
def name? : List Char → Option (List Char × List Char)
  | [] => none
  | c :: s =>
    if isNameStart c then some ((c :: s).takeWhile isNamePart, (c :: s).dropWhile isNamePart) else none

/-- Reads the longest run of decimal digits, at least one. -/
def decimals? (s : List Char) : Option (List Char × List Char) :=
  match s.takeWhile isDecimal with
  | [] => none
  | ds => some (ds, s.dropWhile isDecimal)

/-- Reads a keyword and the blanks after it, at least one. -/
def keyword? (word s : List Char) : Option (List Char) :=
  match afterPrefix? word s with
  | some (c :: r) => if isBlank c then some (trimStart r) else none
  | _ => none

/-- Reads a character after any number of blanks. -/
def mark? (m : Char) (s : List Char) : Option (List Char) :=
  match trimStart s with
  | c :: r => if c = m then some r else none
  | [] => none

/-- Whether a text stays on one line. -/
def onOneLine (s : List Char) : Bool := !s.contains '\n'

/-- Reads the value a declaration ends with: everything up to the end, less blanks on both sides and
less one closing mark. A value is never empty, so a mark that stands alone is itself the value, and of
blanks alone the last one that is no newline is. A value stays on one line. -/
def closedValue? (closing : Char) (s : List Char) : Option (List Char) :=
  match trim s with
  | [] => (s.filter (· ≠ '\n')).getLast?.map ([·])
  | t =>
    let inner := if t.getLast? = some closing then trimEnd t.dropLast else t
    let value := if inner = [] then t else inner
    if onOneLine value then some value else none

theorem length_lt_of_keyword? {word s r : List Char} (h : keyword? word s = some r) :
    r.length < s.length := by
  unfold keyword? at h
  split at h
  · next c q hq =>
    split at h
    · cases h
      have := length_le_of_afterPrefix? hq
      have hd : (trimStart q).length ≤ q.length := (List.dropWhile_suffix isBlank).length_le
      simp only [List.length_cons] at this
      omega
    · simp at h
  · simp at h

end PseudoMove.Listing
