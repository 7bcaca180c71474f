import PseudoMove.Json.Value
import PseudoMove.Text.Search
/-!
# Reading JSON

A text is one value with blanks around it. A string that is read strictly has to be well-formed text:
an escape may not stand for half of a surrogate pair. Where strings do not matter they may be read
loosely, and such a half counts as a replacement character.

The readers of nested values take a number of steps, which `read?` sets from the length of the text.
-/

namespace PseudoMove.Json

open PseudoMove.Text

/-- What may stand between the tokens of a JSON text. -/
def isSpace (c : Char) : Bool := c == ' ' || c == '\t' || c == '\n' || c == '\r'

/-- A text without spaces in front. -/
def skipSpace (s : List Char) : List Char := s.dropWhile isSpace

/-! ### Strings -/

/-- The value of a hexadecimal digit. -/
def hexValue? (c : Char) : Option Nat :=
  if c.isDigit then some (c.toNat - '0'.toNat)
  else if 'a' ≤ c ∧ c ≤ 'f' then some (c.toNat - 'a'.toNat + 10)
  else if 'A' ≤ c ∧ c ≤ 'F' then some (c.toNat - 'A'.toNat + 10)
  else none

/-- The value of four hexadecimal digits. -/
def hexQuad? (a b c d : Char) : Option Nat := do
  some ((((← hexValue? a) * 16 + (← hexValue? b)) * 16 + (← hexValue? c)) * 16 + (← hexValue? d))

/-- The character that a short escape stands for. -/
def shortEscape? (c : Char) : Option Char :=
  if c = '"' ∨ c = '\\' ∨ c = '/' then some c
  else if c = 'b' then some '\x08'
  else if c = 'f' then some '\x0c'
  else if c = 'n' then some '\n'
  else if c = 'r' then some '\r'
  else if c = 't' then some '\t'
  else none

/-- Whether a code unit is the first half of a surrogate pair. -/
def isHighHalf (n : Nat) : Bool := 0xD800 ≤ n && n < 0xDC00

/-- Whether a code unit is the second half of a surrogate pair. -/
def isLowHalf (n : Nat) : Bool := 0xDC00 ≤ n && n < 0xE000

/-- What stands for text that is not well-formed. -/
def replacement : Char := '\ufffd'

/-- A part of a string: a character, or a code unit given by its number. -/
inductive Part where
  | char (c : Char)
  | unit (n : Nat)
deriving DecidableEq, Repr

/-- One more part in front of those that have been read. -/
def consPart (p : Part) (r : Option (List Part × List Char)) : Option (List Part × List Char) :=
  r.map fun q => (p :: q.1, q.2)

/-- Reads the parts of a string behind its opening quotation mark, up to and with the closing one. -/
def parts? : List Char → Option (List Part × List Char)
  | [] => none
  | '"' :: s => some ([], s)
  | '\\' :: 'u' :: a :: b :: c :: d :: s =>
    (hexQuad? a b c d).bind fun n => consPart (.unit n) (parts? s)
  | '\\' :: c :: s => (shortEscape? c).bind fun c => consPart (.char c) (parts? s)
  | c :: s => if c.toNat < 32 ∨ c = '\\' then none else consPart (.char c) (parts? s)

/-- The character that a surrogate pair stands for. -/
def pairChar (high low : Nat) : Char :=
  Char.ofNat (0x10000 + (high - 0xD800) * 0x400 + (low - 0xDC00))

/-- The text that the parts of a string make up. Half of a surrogate pair is refused, or else
replaced. -/
def textOf? (strict : Bool) : List Part → Option (List Char)
  | [] => some []
  | .char c :: ps => (textOf? strict ps).map (c :: ·)
  | .unit m :: .unit n :: ps =>
    if isHighHalf m && isLowHalf n then (textOf? strict ps).map (pairChar m n :: ·)
    else if isHighHalf m || isLowHalf m then
      if strict then none else (textOf? strict (.unit n :: ps)).map (replacement :: ·)
    else (textOf? strict (.unit n :: ps)).map (Char.ofNat m :: ·)
  | .unit n :: ps =>
    if isHighHalf n || isLowHalf n then
      if strict then none else (textOf? strict ps).map (replacement :: ·)
    else (textOf? strict ps).map (Char.ofNat n :: ·)

/-- Reads a string behind its opening quotation mark. -/
def readString? (strict : Bool) (s : List Char) : Option (List Char × List Char) := do
  let (ps, r) ← parts? s
  some (← textOf? strict ps, r)

/-! ### Numbers -/

/-- Reads digits, at least one. -/
def digits? (s : List Char) : Option (List Char × List Char) :=
  match s.takeWhile Char.isDigit with
  | [] => none
  | ds => some (ds, s.dropWhile Char.isDigit)

/-- Reads the whole part of a number: a zero that no digit follows, or digits that begin with another
one. -/
def wholePart? (s : List Char) : Option (List Char × List Char) := do
  let (ds, r) ← digits? s
  if ds.head? = some '0' ∧ ds ≠ ['0'] then none else some (ds, r)

/-- Reads the fraction of a number, which may be left out. -/
def fractionPart? : List Char → Option (List Char × List Char)
  | '.' :: s => (digits? s).map fun p => ('.' :: p.1, p.2)
  | s => some ([], s)

/-- Reads the exponent of a number, which may be left out. -/
def exponentPart? : List Char → Option (List Char × List Char)
  | [] => some ([], [])
  | e :: s =>
    if e = 'e' ∨ e = 'E' then
      match s with
      | '+' :: r => (digits? r).map fun p => (e :: '+' :: p.1, p.2)
      | '-' :: r => (digits? r).map fun p => (e :: '-' :: p.1, p.2)
      | _ => (digits? s).map fun p => (e :: p.1, p.2)
    else some ([], e :: s)

/-- Reads a number without its sign. -/
def unsigned? (s : List Char) : Option (List Char × List Char) := do
  let (whole, s) ← wholePart? s
  let (fraction, s) ← fractionPart? s
  let (exponent, s) ← exponentPart? s
  some (whole ++ fraction ++ exponent, s)

/-- Reads a number. -/
def number? : List Char → Option (List Char × List Char)
  | '-' :: s => (unsigned? s).map fun p => ('-' :: p.1, p.2)
  | s => unsigned? s

/-! ### Values -/

/-- Reads a word that stands for a value. -/
def literal? (s : List Char) : Option (Json × List Char) :=
  ((afterPrefix? "null".toList s).map fun r => (Json.null, r)).or <|
    ((afterPrefix? "true".toList s).map fun r => (Json.bool true, r)).or <|
      (afterPrefix? "false".toList s).map fun r => (Json.bool false, r)

mutual

/-- Reads a value in a number of steps. Its strings and names are read strictly if `strict` says so,
those of the values inside if `inner` does. -/
def readValue? (inner strict : Bool) : Nat → List Char → Option (Json × List Char)
  | 0, _ => none
  | n + 1, s =>
    match skipSpace s with
    | [] => none
    | '"' :: r => (readString? strict r).map fun p => (.string (String.ofList p.1), p.2)
    | '[' :: r =>
      match skipSpace r with
      | ']' :: r => some (.array [], r)
      | r => (readItems? inner n r).map fun p => (.array p.1, p.2)
    | '{' :: r =>
      match skipSpace r with
      | '}' :: r => some (.object [], r)
      | r => (readMembers? inner strict n r).map fun p => (.object p.1, p.2)
    | r => (literal? r).or ((number? r).map fun p => (.number p.1, p.2))

/-- Reads the items of an array, at least one, up to and with its closing bracket. -/
def readItems? (inner : Bool) : Nat → List Char → Option (List Json × List Char)
  | 0, _ => none
  | n + 1, s =>
    match readValue? inner inner n s with
    | none => none
    | some (v, r) =>
      match skipSpace r with
      | ',' :: r => (readItems? inner n r).map fun p => (v :: p.1, p.2)
      | ']' :: r => some ([v], r)
      | _ => none

/-- Reads the members of an object, at least one, up to and with its closing brace. -/
def readMembers? (inner strict : Bool) :
    Nat → List Char → Option (List (String × Json) × List Char)
  | 0, _ => none
  | n + 1, s =>
    match skipSpace s with
    | '"' :: r =>
      match readString? strict r with
      | none => none
      | some (name, r) =>
        match skipSpace r with
        | ':' :: r =>
          match readValue? inner inner n r with
          | none => none
          | some (v, r) =>
            let m := (String.ofList name, v)
            match skipSpace r with
            | ',' :: r => (readMembers? inner strict n r).map fun p => (m :: p.1, p.2)
            | '}' :: r => some ([m], r)
            | _ => none
        | _ => none
    | _ => none

end

/-- Reads a text that is one value. `inner` says whether the strings inside of it are read strictly;
those of the outermost value always are. -/
def readWith? (inner : Bool) (s : String) : Option Json :=
  let cs := s.toList
  match readValue? inner true (2 * cs.length + 2) cs with
  | some (v, r) => if skipSpace r = [] then some v else none
  | none => none

/-- Reads a text that is one value and well-formed throughout. -/
def read? (s : String) : Option Json := readWith? true s

end PseudoMove.Json
