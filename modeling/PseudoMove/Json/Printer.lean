import PseudoMove.Json.Value
/-!
# Writing JSON

Two layouts: compact, without any blanks, and pretty, with each member and item on a line of its own
and two spaces for each level. In strings, quotation marks, backslashes and control characters are
escaped, and nothing else.
-/

namespace PseudoMove.Json

/-- How the text is laid out. -/
inductive Layout where
  | compact
  | pretty
deriving DecidableEq, Repr

/-- A digit of a hexadecimal number, in lower case. -/
def hexDigit (n : Nat) : Char := if n < 10 then Char.ofNat (48 + n) else Char.ofNat (87 + n)

/-- A character inside a string. -/
def escapeChar (c : Char) : List Char :=
  if c = '"' ∨ c = '\\' then ['\\', c]
  else if c = '\n' then ['\\', 'n']
  else if c = '\r' then ['\\', 'r']
  else if c = '\t' then ['\\', 't']
  else if c = '\x08' then ['\\', 'b']
  else if c = '\x0c' then ['\\', 'f']
  else if c.toNat < 32 then ['\\', 'u', '0', '0', hexDigit (c.toNat / 16), hexDigit (c.toNat % 16)]
  else [c]

/-- A string with its quotation marks. -/
def printString (s : String) : List Char := '"' :: s.toList.flatMap escapeChar ++ ['"']

/-- The break between two lines, before text at a given level. -/
def lineBreak (layout : Layout) (level : Nat) : List Char :=
  match layout with
  | .compact => []
  | .pretty => '\n' :: List.replicate (2 * level) ' '

/-- What separates the name of a member from its value. -/
def colon : Layout → List Char
  | .compact => [':']
  | .pretty => [':', ' ']

mutual

/-- A value at a given level. -/
def printAt (layout : Layout) (level : Nat) : Json → List Char
  | .null => "null".toList
  | .bool b => if b then "true".toList else "false".toList
  | .number literal => literal
  | .string s => printString s
  | .array [] => ['[', ']']
  | .array (v :: vs) =>
    '[' :: lineBreak layout (level + 1) ++ printAt layout (level + 1) v ++
      printItems layout (level + 1) vs ++ lineBreak layout level ++ [']']
  | .object [] => ['{', '}']
  | .object ((k, v) :: ms) =>
    '{' :: lineBreak layout (level + 1) ++ printString k ++ colon layout ++
      printAt layout (level + 1) v ++ printMembers layout (level + 1) ms ++
      lineBreak layout level ++ ['}']

/-- The items after the first, each with a comma in front. -/
def printItems (layout : Layout) (level : Nat) : List Json → List Char
  | [] => []
  | v :: vs =>
    ',' :: lineBreak layout level ++ printAt layout level v ++ printItems layout level vs

/-- The members after the first, each with a comma in front. -/
def printMembers (layout : Layout) (level : Nat) : List (String × Json) → List Char
  | [] => []
  | (k, v) :: ms =>
    ',' :: lineBreak layout level ++ printString k ++ colon layout ++ printAt layout level v ++
      printMembers layout level ms

end

/-- A value as text. -/
def print (layout : Layout) (v : Json) : String := String.ofList (printAt layout 0 v)

end PseudoMove.Json
