import PseudoMove.Remark
import PseudoMove.Callee
import PseudoMove.Fragment
import PseudoMove.Instruction
import PseudoMove.Module
import PseudoMove.Naming
import PseudoMove.Notice
/-!
# The fragment machine

A function body is run on a stack of fragments, from its first instruction to its last, without ever
following a branch. Every instruction has an `Effect`: how many fragments it takes from the stack, what
it puts back, and what statement it writes. Only `Machine.apply` changes the machine, so what an
instruction does to depth, statements and counters can be read off its effect.

* `stack` has its top first, `emitted` and `skipped` have the newest first;
* an operand that is missing, on the stack or in the line, is written as a placeholder and counted;
* `locals` only grows, and slots once assigned stay so.
-/

namespace PseudoMove

open Text Remark Fragment Naming

/-- What may be chosen about a run. -/
structure MachineOptions where
  emitBranchComments : Bool := true
  keepTypeArguments : Bool := false
  maxVectorElements : Nat := 100000
deriving DecidableEq, Repr

/-- The state of a run over one function. `declared` gives the local number of each declared slot. -/
structure Machine where
  header : FunctionHeader
  options : MachineOptions
  stack : List String := []
  locals : LocalNames := {}
  assigned : List Slot := []
  declared : List (Nat × Nat) := []
  emitted : List String := []
  skipped : List String := []
  unresolved : Nat := 0
  notices : List Notice := []

/-- What one instruction does. `pushes` are in the order in which they are pushed; `misses` counts the
operands that the line itself fails to give; `locals` is the table afterwards. -/
structure Effect where
  pops : Nat := 0
  pushes : List String := []
  statement : Option String := none
  misses : Nat := 0
  locals : LocalNames
  assigned : Option Slot := none
  skipped : Option String := none
  notices : List Notice := []

namespace Machine

/-! ### The start of a run -/

/-- The base name of the `i`-th parameter: its own name, or one made from its type if the listing has
none. The position counts the earlier parameters of the same base type. -/
def parameterBase (h : FunctionHeader) (i : Nat) (p : Parameter) : String :=
  let name := p.name.toList
  if isArgName name ∨ name = [] then
    let base := TypeText.baseName p.paramType.toList
    let earlier := (h.parameters.take i).countP fun q => TypeText.baseName q.paramType.toList = base
    nameFor p.paramType.toList { function := some h.name, position := earlier }
  else String.ofList (Identifier.sanitize name)

/-- The table of locals with every parameter bound, in order. -/
def parameterTable (h : FunctionHeader) : LocalNames :=
  (h.parameters.mapIdx fun i p => (Slot.arg i, parameterBase h i p)).foldl
    (fun t b => (t.bind b.1 b.2).2) {}

/-- The machine before the first line of a body. Parameters count as assigned. -/
def start (h : FunctionHeader) (options : MachineOptions) : Machine where
  header := h
  options
  locals := parameterTable h
  assigned := (List.range h.parameters.length).map Slot.arg

/-- Declares a local slot. Its local number is the one in its name, as in `loc0`, or else the number of
slots declared before. -/
def declare (m : Machine) (d : SlotDecl) : Machine :=
  let index := (localNumber? d.name.toList).getD m.declared.length
  { m with
    declared := (d.slot, index) :: m.declared.filter (·.1 ≠ d.slot)
    locals := (m.locals.bind (.loc index) (nameFor d.slotType.toList {})).2 }

/-! ### Operands -/

/-- The fragment `i` places below the top. -/
def operand (m : Machine) (i : Nat) : String := m.stack[i]?.getD placeholder

/-- More missing fragments than this are written as one placeholder. -/
def maxPlaceholders : Nat := 16

/-- The topmost `n` fragments in the order in which they were pushed, with placeholders in front for
those that are missing. -/
def operands (m : Machine) (n : Nat) : List String :=
  let missing := n - m.stack.length
  List.replicate (if missing ≤ maxPlaceholders then missing else 1) placeholder ++
    (m.stack.take n).reverse

/-- The slot that an instruction means, with the type its remark gives. The label names it if it
can; otherwise the operand counts parameters first and then locals, declared ones by their number. -/
def slotOf? (m : Machine) (r : Instruction) : Option (Slot × Option (List Char)) :=
  let parts := r.remark.map fun a => labelAndType a.toList
  let ty := parts.bind (·.2)
  match parts.bind fun p => slot? p.1 with
  | some slot => some (slot, ty)
  | none =>
    r.operandIndex.map fun index =>
      let params := m.header.parameters.length
      let slot :=
        if index < params then Slot.arg index
        else .loc ((m.declared.lookup index).getD (index - params))
      (slot, ty)

/-- The local that an instruction reads or writes: its slot, its name, and the table afterwards. -/
structure LocalUse where
  slot : Option Slot
  name : String
  locals : LocalNames

/-- The name a slot gets at its first use: after the type if one is given, or after its own number. -/
def localBase (slot : Slot) (ty : Option (List Char)) : String :=
  match ty, slot with
  | some ty, _ => nameFor ty {}
  | none, .arg n => "arg" ++ toString n
  | none, .loc n => "loc" ++ toString n

/-- Finds the local of an instruction, and names it if this is its first use. -/
def localUse (m : Machine) (r : Instruction) : LocalUse :=
  match m.slotOf? r with
  | none => { slot := none, name := placeholder, locals := m.locals }
  | some (slot, ty) =>
    let b := m.locals.bind slot (localBase slot ty)
    { slot := some slot, name := b.1, locals := b.2 }

/-- One for an operand that is missing, none for one that is there. -/
def missing {α : Type} (x : Option α) : Nat := if x.isNone then 1 else 0

/-- An operand, or the placeholder. -/
def orPlaceholder (x : Option String) : String := x.getD placeholder

/-- The struct that an instruction names. -/
def structOf? (r : Instruction) : Option String :=
  (r.remark.bind fun a => structName? a.toList).map String.ofList

/-- The field that an instruction names. -/
def fieldOf? (r : Instruction) : Option String :=
  (r.remark.bind fun a => fieldName? a.toList).map String.ofList

/-- The element count that an instruction gives: the last number of its remark, or its operand. -/
def countOf? (r : Instruction) : Option Nat :=
  (r.remark.bind fun a => lastNumber? a.toList).or r.operandIndex

/-- The element count of a vector instruction. One that is missing counts as none, one that is too
large as the largest allowed, and both as misses. -/
structure ElementCount where
  count : Nat
  misses : Nat := 0
  notices : List Notice := []

/-- Finds the element count of a vector instruction. -/
def elementCount (m : Machine) (r : Instruction) : ElementCount :=
  let limit := m.options.maxVectorElements
  match countOf? r with
  | none => { count := 0, misses := 1 }
  | some n =>
    if n > limit then
      { count := limit, misses := 1, notices := [.countCapped m.header.name n r.offset limit] }
    else { count := n }

/-- The target that a branch names. -/
def targetOf (r : Instruction) : String := orPlaceholder r.argument

/-! ### Effects -/

/-- A call of a known function. Its result is a fragment; several results are bound to new names
at once, and no result makes the call a statement. -/
def callEffect (m : Machine) (f : Callee) : Effect :=
  let pops := f.arity
  let call :=
    f.render m.options.keepTypeArguments ++ "(" ++ commaList (m.operands pops) ++ ")"
  match f.resultCount with
  | 0 => { pops, statement := some (call ++ ";"), locals := m.locals }
  | 1 => { pops, pushes := [call], locals := m.locals }
  | n =>
    let names := m.locals.temporaries "result" n
    { pops
      pushes := names.1
      statement := some ("let (" ++ commaList names.1 ++ ") = " ++ call ++ ";")
      locals := names.2 }

/-- The return from the function, of as many values as its return type has. -/
def returnEffect (m : Machine) : Effect :=
  match TypeText.resultCount m.header.returnType.toList with
  | 0 => { statement := some "return;", locals := m.locals }
  | 1 => { pops := 1, statement := some ("return " ++ m.operand 0 ++ ";"), locals := m.locals }
  | n =>
    { pops := n
      statement := some ("return (" ++ commaList (m.operands n) ++ ");")
      locals := m.locals }

/-- A read of a local, with `borrow` in front of its name. -/
def readEffect (m : Machine) (r : Instruction) (borrow : String) : Effect :=
  let use := m.localUse r
  { pushes := [borrow ++ use.name], misses := missing use.slot, locals := use.locals }

/-- A store into a local. The first one into a slot declares its name. -/
def storeEffect (m : Machine) (r : Instruction) : Effect :=
  let use := m.localUse r
  let isFirst := use.slot.any fun s => s ∉ m.assigned
  { pops := 1
    statement :=
      some ((if isFirst then "let " else "") ++ use.name ++ " = " ++ m.operand 0 ++ ";")
    misses := missing use.slot
    locals := use.locals
    assigned := if isFirst then use.slot else none }

/-- The literal that a constant of the pool stands for: the value its remark gives after a colon,
or a name made from its number, or else the argument of the instruction. -/
def constant? (r : Instruction) : Option String :=
  let value := (r.remark.bind fun a => (labelAndType a.toList).2).filter (· ≠ [])
  match value, r.operandIndex with
  | some v, _ => some (String.ofList v)
  | none, some index => some ("CONST_" ++ toString index)
  | none, none => r.argument

/-- A comment about a branch, if such comments are wanted. -/
def branchComment (m : Machine) (text : String) : Option String :=
  if m.options.emitBranchComments then some ("// " ++ text) else none

/-- A builtin that reads global storage: the struct it names, at the address it takes. -/
def globalEffect (m : Machine) (r : Instruction) (builtin : String) : Effect :=
  let name := structOf? r
  { pops := 1
    pushes := [builtin ++ "<" ++ orPlaceholder name ++ ">(" ++ m.operand 0 ++ ")"]
    misses := missing name
    locals := m.locals }

/-- What an instruction does in a given state. -/
def effect (m : Machine) (r : Instruction) : Effect :=
  let locals := m.locals
  match r.opcode with
  | .copyLoc | .moveLoc => m.readEffect r ""
  | .immBorrowLoc => m.readEffect r "&"
  | .mutBorrowLoc => m.readEffect r "&mut "
  | .stLoc => m.storeEffect r
  | .call =>
    match r.remark.bind fun a => Callee.read? a.toList with
    | some f => m.callEffect f
    | none => { statement := some ("// unresolved call " ++ targetOf r), misses := 1, locals }
  | .pack =>
    let name := structOf? r
    { pushes := [orPlaceholder name ++ " \x7b ... \x7d"], misses := missing name, locals }
  | .unpack =>
    let name := structOf? r
    { pops := 1
      statement :=
        some ("let " ++ orPlaceholder name ++ " \x7b ... \x7d = " ++ m.operand 0 ++ ";")
      misses := missing name, locals }
  | .ret => m.returnEffect
  | .freezeRef => { pops := 1, pushes := [freeze (m.operand 0)], locals }
  | .ldInt _ =>
    { pushes := [orPlaceholder r.argument], misses := missing r.argument, locals }
  | .ldTrue => { pushes := ["true"], locals }
  | .ldFalse => { pushes := ["false"], locals }
  | .ldConst =>
    { pushes := [orPlaceholder (constant? r)], misses := missing (constant? r), locals }
  | .pop =>
    let value := m.operand 0
    { pops := 1
      statement := if value = placeholder then none else some ("_ = " ++ value ++ ";")
      locals }
  | .brTrue =>
    { pops := 1
      statement := m.branchComment ("if " ++ inParentheses (m.operand 0) ++ " goto " ++ targetOf r)
      locals }
  | .brFalse =>
    { pops := 1
      statement := m.branchComment ("if " ++ negated (m.operand 0) ++ " goto " ++ targetOf r)
      locals }
  | .branch => { statement := m.branchComment ("goto " ++ targetOf r), locals }
  | .abort => { pops := 1, statement := some ("abort " ++ m.operand 0 ++ ";"), locals }
  | .immBorrowField =>
    let field := fieldOf? r
    { pops := 1
      pushes := ["&" ++ unborrowed (m.operand 0) ++ "." ++ orPlaceholder field]
      misses := missing field, locals }
  | .mutBorrowField =>
    let field := fieldOf? r
    { pops := 1
      pushes := ["&mut " ++ unborrowed (m.operand 0) ++ "." ++ orPlaceholder field]
      misses := missing field, locals }
  | .readRef => { pops := 1, pushes := [dereferenced (m.operand 0)], locals }
  | .writeRef =>
    { pops := 2
      statement := some (dereferenced (m.operand 0) ++ " = " ++ m.operand 1 ++ ";")
      locals }
  | .binary op =>
    { pops := 2
      pushes := ["(" ++ m.operand 1 ++ " " ++ op.symbol ++ " " ++ m.operand 0 ++ ")"]
      locals }
  | .not => { pops := 1, pushes := [negated (m.operand 0)], locals }
  | .cast ty => { pops := 1, pushes := ["(" ++ m.operand 0 ++ " as " ++ ty.name ++ ")"], locals }
  | .vecPack =>
    let n := m.elementCount r
    { pops := n.count
      pushes := ["vector[" ++ commaList (m.operands n.count) ++ "]"]
      misses := n.misses, notices := n.notices, locals }
  | .vecLen => { pops := 1, pushes := [unborrowed (m.operand 0) ++ ".length()"], locals }
  | .vecImmBorrow =>
    { pops := 2
      pushes := [unborrowed (m.operand 1) ++ ".borrow(" ++ m.operand 0 ++ ")"]
      locals }
  | .vecMutBorrow =>
    { pops := 2
      pushes := [unborrowed (m.operand 1) ++ ".borrow_mut(" ++ m.operand 0 ++ ")"]
      locals }
  | .vecPushBack =>
    { pops := 2
      statement := some (unborrowed (m.operand 1) ++ ".push_back(" ++ m.operand 0 ++ ");")
      locals }
  | .vecPopBack => { pops := 1, pushes := [unborrowed (m.operand 0) ++ ".pop_back()"], locals }
  | .vecUnpack =>
    let n := m.elementCount r
    { pops := 1
      pushes := (List.range n.count).map fun i => m.operand 0 ++ "[" ++ toString i ++ "]"
      misses := n.misses, notices := n.notices, locals }
  | .vecSwap =>
    { pops := 3
      statement := some (unborrowed (m.operand 2) ++ ".swap(" ++ m.operand 1 ++ ", " ++
        m.operand 0 ++ ");")
      locals }
  | .existsGlobal => m.globalEffect r "exists"
  | .moveFrom => m.globalEffect r "move_from"
  | .immBorrowGlobal => m.globalEffect r "borrow_global"
  | .mutBorrowGlobal => m.globalEffect r "borrow_global_mut"
  | .moveTo =>
    { pops := 2
      statement := some ("move_to(" ++ m.operand 1 ++ ", " ++ m.operand 0 ++ ");")
      locals }
  | .nop => { locals }
  | .unknown mnemonic =>
    { skipped := some mnemonic
      notices := [.opcodeSkipped m.header.name mnemonic r.offset], locals }

/-- Carries out an effect. Fragments that it takes and the stack does not have are counted as
unresolved. -/
def apply (m : Machine) (e : Effect) : Machine :=
  { m with
    stack := e.pushes.reverse ++ m.stack.drop e.pops
    locals := e.locals
    assigned := e.assigned.toList ++ m.assigned
    emitted := e.statement.toList ++ m.emitted
    skipped := e.skipped.toList ++ m.skipped
    unresolved := m.unresolved + (e.pops - m.stack.length) + e.misses
    notices := e.notices ++ m.notices }

/-- Runs one instruction. -/
def step (m : Machine) (r : Instruction) : Machine := m.apply (m.effect r)

/-- Runs a body: first its declarations, then its instructions. -/
def run (m : Machine) (b : Body) : Machine :=
  b.instructions.foldl step (b.locals.foldl declare m)

/-- The fragment whose parentheses an instruction counts, to tell whether it needs another pair. -/
def counted? (m : Machine) (r : Instruction) : Option String :=
  match r.opcode with
  | .brTrue | .brFalse => if m.options.emitBranchComments then some (m.operand 0) else none
  | .not => some (m.operand 0)
  | _ => none

/-- Whether the parentheses of all fragments that some instructions count can be counted. -/
def countsAll (m : Machine) : List Instruction → Bool
  | [] => true
  | r :: rs => (m.counted? r).all isCountable && (m.step r).countsAll rs

/-! ### The end of a run -/

/-- The statements written so far, in order. -/
def statements (m : Machine) : List String := m.emitted.reverse

/-- The parameters under the names they have in the body. -/
def namedParameters (m : Machine) : List Parameter :=
  m.header.parameters.mapIdx fun i p => { p with name := (m.locals.get? (.arg i)).getD p.name }

end Machine

/-- What the run over one function comes to. -/
structure Interpretation where
  function : PseudoFunction
  unknownOpcodes : List String
  unresolvedOperands : Nat
  leftoverStack : Nat
  notices : List Notice

namespace Interpretation

/-- Whether nothing was skipped, missing or left over. -/
def isComplete (i : Interpretation) : Bool :=
  i.unknownOpcodes.isEmpty && i.unresolvedOperands == 0 && i.leftoverStack == 0

end Interpretation

namespace Machine

/-- The result of a run. -/
def result (m : Machine) : Interpretation :=
  let left := m.stack.length
  let notice := if left > 0 then [Notice.fragmentsLeft m.header.name left] else []
  { function := {
      toFunctionHeader := { m.header with parameters := m.namedParameters }
      statements := m.statements }
    unknownOpcodes := m.skipped.reverse
    unresolvedOperands := m.unresolved
    leftoverStack := left
    notices := m.notices.reverse ++ notice }

end Machine

/-- Runs the body of a function on a machine of its own. -/
def interpret (h : FunctionHeader) (b : Body) (options : MachineOptions) : Interpretation :=
  ((Machine.start h options).run b).result

end PseudoMove
