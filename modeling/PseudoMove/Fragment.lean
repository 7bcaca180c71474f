import PseudoMove.Text.Digit
import PseudoMove.Text.Search
/-!
# Fragments

The machine's stack holds fragments, pieces of pseudo-source that each stand for one value. These are
the few rules by which a fragment is written inside a larger one.
-/

namespace PseudoMove.Fragment

open PseudoMove.Text

/-- What is written in place of an operand that is missing. -/
def placeholder : String := "?"

/-- What a reference refers to; any other fragment is itself. -/
def unborrowed (fragment : String) : String :=
  match afterPrefix? "&mut ".toList fragment.toList with
  | some r => String.ofList r
  | none =>
    match fragment.toList with
    | '&' :: r => String.ofList r
    | _ => fragment

/-- The value read through a reference: a borrow is undone, anything else gets a star. -/
def dereferenced (fragment : String) : String :=
  if fragment.toList.head? = some '&' then unborrowed fragment else "*" ++ fragment

/-- A reference as an immutable one. -/
def freeze (fragment : String) : String :=
  match afterPrefix? "&mut ".toList fragment.toList with
  | some r => "&" ++ String.ofList r
  | none => fragment

/-- Whether the parenthesis depth, from `depth` on, comes to zero at the end of a text and not
before. -/
def closesAtEnd (depth : Nat) : List Char → Bool
  | [] => false
  | c :: s =>
    let depth := if c = '(' then depth + 1 else if c = ')' then depth - 1 else depth
    if depth = 0 then s.isEmpty else closesAtEnd depth s

/-- Whether one pair of parentheses encloses all of a fragment. Angle brackets do not count, being
comparisons. -/
def isEnclosed (fragment : String) : Bool :=
  fragment.toList.head? = some '(' && closesAtEnd 0 fragment.toList

/-- The depth of parentheses is held in 32 bits, one of them for its sign. -/
def depthLimit : Nat := 0x80000000

/-- The depth of parentheses after a character. It stays as it is once it has come to zero or does
not fit. -/
def depthAfter (depth : Nat) (c : Char) : Nat :=
  if depth = 0 ∨ depth ≥ depthLimit then depth
  else if c = '(' then depth + 1
  else if c = ')' then depth - 1
  else depth

/-- Whether the parentheses of a fragment can be counted. They are counted only if it begins and ends
with one, and a fragment with fewer bytes than the limit has too few of them to be gone through. -/
def isCountable (fragment : String) : Bool :=
  decide (fragment.utf8ByteSize < depthLimit) ||
    (fragment.dropPrefix? '(').all fun rest =>
      !rest.endsWith ')' || decide (rest.foldl depthAfter 1 < depthLimit)

/-- A fragment in parentheses. -/
def inParentheses (fragment : String) : String :=
  if isEnclosed fragment then fragment else "(" ++ fragment ++ ")"

/-- Whether a fragment is a word, perhaps with dots in it. -/
def isSimple (fragment : String) : Bool :=
  fragment.toList.all fun c => isAlphanumeric c || c == '_' || c == '.'

/-- The negation of a fragment. -/
def negated (fragment : String) : String :=
  "!" ++ if isSimple fragment then fragment else inParentheses fragment

/-- Fragments separated by commas. -/
def commaList (fragments : List String) : String := ", ".intercalate fragments

end PseudoMove.Fragment
