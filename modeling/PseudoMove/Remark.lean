import PseudoMove.TypeText
import PseudoMove.Text.Word
import PseudoMove.Text.Digit
import PseudoMove.Locals
/-!
# Remarks

The remark of an instruction says what its operand refers to. It is a label, with a type after a
colon if one is given: `Arg0: Coin<SUI>`, `Pool.reserve: u64`, `Receipt<T>`. Colons in paths and inside
brackets separate nothing.
-/

namespace PseudoMove.Remark

open PseudoMove.Text PseudoMove.TypeText

/-- How a character changes the bracket depth. Braces do not count, and a closing bracket too many
makes the depth negative. -/
def depthChange (c : Char) : Int :=
  if c = '<' ∨ c = '(' ∨ c = '[' then 1
  else if c = '>' ∨ c = ')' ∨ c = ']' then -1
  else 0

/-- Splits at the first colon at depth zero that has no other colon beside it; `afterColon` says that a
colon stands before the text. -/
def splitAtColon (afterColon : Bool) (depth : Int) : List Char → Option (List Char × List Char)
  | [] => none
  | c :: s =>
    if c = ':' then
      if depth = 0 ∧ afterColon = false ∧ s.head? ≠ some ':' then some ([], s)
      else (splitAtColon true depth s).map fun r => (c :: r.1, r.2)
    else (splitAtColon false (depth + depthChange c) s).map fun r => (c :: r.1, r.2)

/-- A remark as label and type. -/
def labelAndType (remark : List Char) : List Char × Option (List Char) :=
  match splitAtColon false 0 remark with
  | some r => (trim r.1, some (trim r.2))
  | none => (trim remark, none)

/-- A label without brackets and colons ends at the first colon, if no other colon follows it. -/
theorem splitAtColon_append {label rest : List Char}
    (hl : ∀ c ∈ label, c ≠ ':' ∧ depthChange c = 0) (hr : rest.head? ≠ some ':') :
    splitAtColon false 0 (label ++ ':' :: rest) = some (label, rest) := by
  induction label with
  | nil =>
    rw [List.nil_append, splitAtColon, if_pos rfl, if_pos ⟨rfl, rfl, hr⟩]
  | cons c label ih =>
    obtain ⟨h1, h2⟩ := hl c List.mem_cons_self
    rw [List.cons_append, splitAtColon, if_neg h1, h2, Int.add_zero,
      ih fun d hd => hl d (List.mem_cons_of_mem _ hd)]
    rfl

theorem splitAtColon_of_forall {s : List Char} (h : ∀ c ∈ s, c ≠ ':') (afterColon : Bool)
    (depth : Int) :
    splitAtColon afterColon depth s = none := by
  induction s generalizing afterColon depth with
  | nil => rfl
  | cons c s ih =>
    rw [splitAtColon, if_neg (h c List.mem_cons_self), ih fun d hd => h d (List.mem_cons_of_mem c hd)]
    rfl

/-- The digits after a word, if nothing else follows it and there is at least one. -/
def digitsAfter? (word : String) (s : List Char) : Option (List Char) :=
  match afterPrefix? word.toList s with
  | some ds => if ds ≠ [] ∧ ds.all isDecimal then some ds else none
  | none => none

/-- Whether a name is a parameter's own, as in `Arg0`. -/
def isArgName (s : List Char) : Bool := (digitsAfter? "Arg" s).isSome

/-- The number in a local's own name, as in `loc0`; a number too large is none. -/
def localNumber? (s : List Char) : Option Nat := (digitsAfter? "loc" s).bind readDigits?

/-- The slot that a label names. -/
def slot? (label : List Char) : Option Slot :=
  (((digitsAfter? "Arg" label).bind readDigits?).map Slot.arg).or
    ((localNumber? label).map Slot.loc)

/-- The struct that a remark names: its base name up to a dot. -/
def structName? (remark : List Char) : Option (List Char) :=
  let name := (baseName (labelAndType remark).1).takeWhile (· ≠ '.')
  if name = [] then none else some name

/-- What follows the last dot of a text, or all of it. -/
def afterLastDot (s : List Char) : List Char := (s.reverse.takeWhile (· ≠ '.')).reverse

/-- The field that a remark names: what follows the last dot of its label. -/
def fieldName? (remark : List Char) : Option (List Char) :=
  let label := (labelAndType remark).1
  let name := trim (afterLastDot label)
  if name = [] ∨ name = label then none else some name

/-- The last number of a remark that lists values with commas. -/
def lastNumber? (remark : List Char) : Option Nat :=
  ((remark.splitOn ',').filterMap fun part => readWord? (trim part)).getLast?

end PseudoMove.Remark
