import PseudoMove.Listing.Scan
import PseudoMove.Instruction
/-!
# Lines of a function body

An instruction is written `offset: Opcode[operand](remark)` or `offset: Opcode[operand] remark`,
where operand and remark may be left out. `L3: name: type` declares a slot and `B3:` is a label.
A line is tried as label, declaration and instruction in this order; a declaration whose slot number is
no word may still be read as an instruction, though no such line is one.
-/

namespace PseudoMove.Listing

open PseudoMove.Text

/-- Whether a line is a label. -/
def isLabel (line : List Char) : Bool :=
  match trimStart line with
  | 'B' :: s =>
    match decimals? s with
    | some (_, ':' :: r) => r.all isBlank
    | _ => false
  | _ => false

/-- Reads the declaration of a slot. -/
def slotDecl? (line : List Char) : Option SlotDecl :=
  match trimStart line with
  | 'L' :: s => do
    let (digits, s) ← decimals? s
    let s ← afterPrefix? [':'] s
    let (name, s) ← name? (trimStart s)
    let s ← mark? ':' s
    let ty ← closedValue? ',' s
    let slot ← readDigits? digits
    some { slot, name := String.ofList name, slotType := String.ofList ty }
  | _ => none

/-- Reads an operand in square brackets, if one follows; it ends at the first closing bracket. -/
def operand? : List Char → Option (Option (List Char) × List Char)
  | '[' :: s =>
    match s.dropWhile (· ≠ ']') with
    | _ :: r => some (some (trim (s.takeWhile (· ≠ ']'))), r)
    | [] => none
  | s => some (none, s)

/-- Reads a remark up to the end of the line, if there is one: in parentheses, of which the last
closes at the end of the line, or after blanks. It stays on one line. -/
def remark? (s : List Char) : Option (Option (List Char)) :=
  match s with
  | '(' :: r =>
    match beforeSuffix? [')'] (trimEnd r) with
    | some t => if onOneLine t then some (some (trim t)) else none
    | none => none
  | [] => some none
  | c :: _ =>
    if isBlank c then
      match trim s with
      | [] => some none
      | t => if onOneLine t then some (some t) else none
    else none

/-- Reads an instruction. -/
def instruction? (line : List Char) : Option Instruction := do
  let (digits, s) ← decimals? (trimStart line)
  let s ← afterPrefix? [':'] s
  let (mnemonic, s) ← name? (trimStart s)
  let (operand, s) ← operand? s
  let remark ← remark? s
  let offset ← readDigits? digits
  some {
    offset
    opcode := .ofMnemonic mnemonic
    operand := operand.map String.ofList
    remark := remark.map String.ofList }

/-- What a line of a function body is. -/
def bodyLine (line : List Char) : BodyLine :=
  if isLabel line then .label
  else
    match slotDecl? line with
    | some d => .declaration d
    | none =>
      match instruction? line with
      | some r => .instruction r
      | none => .other

/-- The body that a list of lines spells. -/
def body (ls : List String) : Body := .ofLines (ls.map fun l => bodyLine l.toList)

end PseudoMove.Listing
