import PseudoMove.Opcode
import PseudoMove.Text.Word
/-!
# Instructions and declarations

The two kinds of lines in a function body that mean something: an instruction with its optional operand
in square brackets and its optional remark, and the declaration of a local slot.
-/

namespace PseudoMove

open Text

/-- One instruction of a body. `operand` is what stood in square brackets, `remark` what stood in
parentheses or after blanks. -/
structure Instruction where
  offset : Nat
  opcode : Opcode
  operand : Option String := none
  remark : Option String := none
deriving DecidableEq, Repr

namespace Instruction

/-- The operand as a number, if it is one. -/
def operandIndex (r : Instruction) : Option Nat := r.operand.bind fun s => readWord? (trim s.toList)

theorem lt_of_operandIndex {r : Instruction} {n : Nat} (h : r.operandIndex = some n) :
    n < wordLimit := by
  obtain ⟨a, -, h⟩ := Option.bind_eq_some_iff.1 h
  exact lt_of_readWord? h

/-- The remark, or without one the operand; a blank text is no argument. -/
def argument (r : Instruction) : Option String :=
  ((r.remark <|> r.operand).map trimmed).filter (· ≠ "")

end Instruction

/-- The declaration of a local slot: its number in the bytecode, the name the listing gives it and its
type. -/
structure SlotDecl where
  slot : Nat
  name : String
  slotType : String
deriving DecidableEq, Repr

/-- What a line of a function body is. -/
inductive BodyLine where
  | label
  | declaration (decl : SlotDecl)
  | instruction (r : Instruction)
  | other
deriving DecidableEq, Repr

/-- The declarations and the instructions of a body, each in the order of their lines. -/
structure Body where
  locals : List SlotDecl
  instructions : List Instruction
deriving DecidableEq, Repr

namespace Body

/-- Gathers the lines of a body. Labels and other lines carry nothing. -/
def ofLines (ls : List BodyLine) : Body where
  locals := ls.filterMap fun
    | .declaration d => some d
    | _ => none
  instructions := ls.filterMap fun
    | .instruction r => some r
    | _ => none

end Body

end PseudoMove
