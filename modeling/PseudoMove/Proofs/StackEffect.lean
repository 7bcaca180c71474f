import PseudoMove.Machine

/-!
# The stack effect of an instruction

How many fragments an instruction takes and puts back, and how many of its operands the line fails
to give, does not depend on the fragments: it is read off the instruction, the return type of the
function and the limit on vector elements (`stackEffect`, `operandMisses`).  A machine that only
counts, `Counters`, therefore follows the fragment machine step by step.

* `step_refines_counters` — one step: depth, fragments below, statements, and unresolved operands;
* `counters_run` — a whole run.
-/

namespace PseudoMove

open Remark

/-- How many fragments an instruction takes from the stack and how many it puts back. -/
structure StackEffect where
  pops : Nat
  pushes : Nat
deriving DecidableEq, Repr

/-- The element count of a vector instruction: at most `limit`, and nothing if none is given. -/
def vectorCount (limit : Nat) (r : Instruction) : Nat :=
  ((Machine.countOf? r).map (min limit)).getD 0

/-- The function that a call names. -/
def callee? (r : Instruction) : Option Callee := r.remark.bind fun a => Callee.read? a.toList

/-- The stack effect of an instruction in a function with the header `h`. -/
def stackEffect (h : FunctionHeader) (limit : Nat) (r : Instruction) : StackEffect :=
  match r.opcode with
  | .copyLoc | .moveLoc | .immBorrowLoc | .mutBorrowLoc => ⟨0, 1⟩
  | .pack | .ldInt _ | .ldTrue | .ldFalse | .ldConst => ⟨0, 1⟩
  | .stLoc | .unpack | .pop | .brTrue | .brFalse | .abort => ⟨1, 0⟩
  | .call =>
    match callee? r with
    | some f => ⟨f.arity, f.resultCount⟩
    | none => ⟨0, 0⟩
  | .ret => ⟨TypeText.resultCount h.returnType.toList, 0⟩
  | .freezeRef | .immBorrowField | .mutBorrowField | .readRef | .not | .cast _ => ⟨1, 1⟩
  | .vecLen | .vecPopBack => ⟨1, 1⟩
  | .existsGlobal | .moveFrom | .immBorrowGlobal | .mutBorrowGlobal => ⟨1, 1⟩
  | .binary _ | .vecImmBorrow | .vecMutBorrow => ⟨2, 1⟩
  | .writeRef | .vecPushBack | .moveTo => ⟨2, 0⟩
  | .vecSwap => ⟨3, 0⟩
  | .vecPack => ⟨vectorCount limit r, 1⟩
  | .vecUnpack => ⟨1, vectorCount limit r⟩
  | .branch | .nop | .unknown _ => ⟨0, 0⟩

/-- Whether an instruction says which local it means: by a label in its remark, or by its
operand. -/
def namesLocal (r : Instruction) : Bool :=
  (r.remark.bind fun a => slot? (labelAndType a.toList).1).isSome || r.operandIndex.isSome

/-- Whether the element count of a vector instruction is given and within the limit. -/
def countFits (limit : Nat) (r : Instruction) : Bool := (Machine.countOf? r).any (· ≤ limit)

/-- Whether an instruction gives the operand that its opcode asks of the line. -/
def givesOperand (limit : Nat) (r : Instruction) : Bool :=
  match r.opcode with
  | .copyLoc | .moveLoc | .immBorrowLoc | .mutBorrowLoc | .stLoc => namesLocal r
  | .call => (callee? r).isSome
  | .pack | .unpack => (Machine.structOf? r).isSome
  | .existsGlobal | .moveFrom | .immBorrowGlobal | .mutBorrowGlobal => (Machine.structOf? r).isSome
  | .immBorrowField | .mutBorrowField => (Machine.fieldOf? r).isSome
  | .ldInt _ => r.argument.isSome
  | .ldConst => (Machine.constant? r).isSome
  | .vecPack | .vecUnpack => countFits limit r
  | _ => true

/-- How many operands the line itself fails to give. -/
def operandMisses (limit : Nat) (r : Instruction) : Nat := if givesOperand limit r then 0 else 1

/-! ## The counting machine -/

/-- What counting keeps of a machine: the depth of its stack and its unresolved operands. -/
structure Counters where
  depth : Nat := 0
  unresolved : Nat := 0
deriving DecidableEq, Repr

/-- Counts one instruction. Of the fragments it asks for, those the stack does not have are
unresolved. -/
def Counters.step (h : FunctionHeader) (limit : Nat) (c : Counters) (r : Instruction) : Counters :=
  let e := stackEffect h limit r
  { depth := c.depth - min c.depth e.pops + e.pushes
    unresolved := c.unresolved + (e.pops - min c.depth e.pops) + operandMisses limit r }

/-- An effect has the given stack effect and number of misses. -/
structure Effect.Counts (e : Effect) (s : StackEffect) (misses : Nat) : Prop where
  pops : e.pops = s.pops
  pushes : e.pushes.length = s.pushes
  misses : e.misses = misses

namespace Machine

/-- The counters of a machine. -/
def counters (m : Machine) : Counters := ⟨m.stack.length, m.unresolved⟩

/-! ## The effect of an instruction, counted -/

theorem length_temporaries (t : LocalNames) (base : String) (n : Nat) :
    (t.temporaries base n).1.length = n := by
  induction n generalizing t with
  | zero => rfl
  | succ n ih =>
    show (((t.temporary base).2.temporaries base n).1).length + 1 = n + 1
    rw [ih]

theorem missing_eq {α : Type} (x : Option α) : missing x = if x.isSome then 0 else 1 := by
  cases x <;> rfl

theorem isSome_slot_localUse (m : Machine) (r : Instruction) :
    (m.localUse r).slot.isSome = namesLocal r := by
  unfold localUse slotOf? namesLocal
  cases r.remark with
  | none => cases r.operandIndex <;> rfl
  | some a =>
    simp only [Option.map_some, Option.bind_some]
    cases slot? (labelAndType a.toList).1 with
    | none => cases r.operandIndex <;> rfl
    | some s => rfl

theorem count_elementCount (m : Machine) (r : Instruction) :
    (m.elementCount r).count = vectorCount m.options.maxVectorElements r := by
  unfold elementCount vectorCount
  cases countOf? r with
  | none => rfl
  | some n =>
    simp only [Option.map_some, Option.getD_some]
    split
    · next h => rw [Nat.min_eq_left (Nat.le_of_lt h)]
    · next h => rw [Nat.min_eq_right (Nat.le_of_not_lt h)]

theorem misses_elementCount (m : Machine) (r : Instruction) :
    (m.elementCount r).misses = if countFits m.options.maxVectorElements r then 0 else 1 := by
  unfold elementCount countFits
  cases countOf? r with
  | none => rfl
  | some n =>
    simp only [Option.any_some]
    by_cases h : n > m.options.maxVectorElements
    · rw [if_pos h, if_neg (by simpa using h)]
    · rw [if_neg h, if_pos (by simpa using h)]

/-- The effect of a call of a known function. -/
theorem effect_call (m : Machine) {r : Instruction} {f : Callee} (hop : r.opcode = .call)
    (hf : callee? r = some f) : m.effect r = m.callEffect f := by
  have hf : (r.remark.bind fun a => Callee.read? a.toList) = some f := hf
  rw [effect, hop]
  dsimp only
  rw [hf]

/-- The effect of a call whose remark names no function. -/
theorem effect_unresolvedCall (m : Machine) {r : Instruction} (hop : r.opcode = .call)
    (hf : callee? r = none) :
    m.effect r =
      { statement := some ("// unresolved call " ++ targetOf r), misses := 1,
        locals := m.locals } := by
  have hf : (r.remark.bind fun a => Callee.read? a.toList) = none := hf
  rw [effect, hop]
  dsimp only
  rw [hf]

/-- The effect of a literal that its line gives. -/
theorem effect_literal (m : Machine) {r : Instruction} {w : IntWidth} (hop : r.opcode = .ldInt w)
    {a : String} (ha : r.argument = some a) :
    m.effect r = { pushes := [a], locals := m.locals } := by
  rw [effect, hop]
  dsimp only
  rw [ha]
  rfl

/-- The effect of an operator on two fragments. -/
theorem effect_binary (m : Machine) {r : Instruction} {o : Operator} (hop : r.opcode = .binary o)
    {a b : String} {s : List String} (hs : m.stack = b :: a :: s) :
    m.effect r =
      { pops := 2
        pushes := ["(" ++ a ++ " " ++ o.symbol ++ " " ++ b ++ ")"]
        locals := m.locals } := by
  rw [effect, hop]
  simp only [operand, hs]
  rfl

theorem counts_callEffect (m : Machine) (f : Callee) :
    Effect.Counts (m.callEffect f) ⟨f.arity, f.resultCount⟩ 0 := by
  unfold callEffect
  dsimp only
  split
  · next h => exact ⟨rfl, h.symm, rfl⟩
  · next h => exact ⟨rfl, h.symm, rfl⟩
  · exact ⟨rfl, length_temporaries _ _ _, rfl⟩

theorem counts_returnEffect (m : Machine) :
    Effect.Counts m.returnEffect ⟨TypeText.resultCount m.header.returnType.toList, 0⟩ 0 := by
  unfold returnEffect
  split
  · next h => exact ⟨h.symm, rfl, rfl⟩
  · next h => exact ⟨h.symm, rfl, rfl⟩
  · exact ⟨rfl, rfl, rfl⟩

/-- **What an effect counts is what its instruction says.** -/
theorem counts_effect (m : Machine) (r : Instruction) :
    (m.effect r).Counts (stackEffect m.header m.options.maxVectorElements r)
      (operandMisses m.options.maxVectorElements r) := by
  unfold effect stackEffect operandMisses givesOperand
  cases r.opcode
  all_goals dsimp only
  case copyLoc | moveLoc | immBorrowLoc | mutBorrowLoc | stLoc =>
    refine ⟨rfl, rfl, ?_⟩
    rw [← m.isSome_slot_localUse]
    exact missing_eq _
  case call =>
    show Effect.Counts (match callee? r with | some f => _ | none => _) _ _
    cases callee? r with
    | some f => exact m.counts_callEffect f
    | none => exact ⟨rfl, rfl, rfl⟩
  case ret => exact m.counts_returnEffect
  case vecPack => exact ⟨m.count_elementCount r, rfl, m.misses_elementCount r⟩
  case vecUnpack =>
    refine ⟨rfl, ?_, m.misses_elementCount r⟩
    rw [List.length_map, List.length_range]
    exact m.count_elementCount r
  -- the line is to give a struct, a field or a literal
  case pack | unpack | existsGlobal | moveFrom | immBorrowGlobal | mutBorrowGlobal
      | immBorrowField | mutBorrowField | ldInt | ldConst => exact ⟨rfl, rfl, missing_eq _⟩
  -- the line gives nothing
  all_goals exact ⟨rfl, rfl, rfl⟩

/-! ## Steps and runs -/

/-- Counting goes along with a step. -/
theorem counters_step (m : Machine) (r : Instruction) :
    (m.step r).counters = m.counters.step m.header m.options.maxVectorElements r := by
  have h := m.counts_effect r
  have hd : (m.step r).stack.length =
      m.stack.length - min m.stack.length (m.effect r).pops + (m.effect r).pushes.length := by
    show ((m.effect r).pushes.reverse ++ m.stack.drop (m.effect r).pops).length = _
    rw [List.length_append, List.length_reverse, List.length_drop]
    omega
  have hu : (m.step r).unresolved = m.unresolved +
      ((m.effect r).pops - min m.stack.length (m.effect r).pops) + (m.effect r).misses := by
    show m.unresolved + ((m.effect r).pops - m.stack.length) + (m.effect r).misses = _
    omega
  rw [h.pops, h.pushes] at hd
  rw [h.pops, h.misses] at hu
  unfold counters Counters.step
  rw [hd, hu]

/-- The fragments below those taken stay, under those put back. -/
theorem drop_stack_step (m : Machine) (r : Instruction) :
    (m.step r).stack.drop (stackEffect m.header m.options.maxVectorElements r).pushes =
      m.stack.drop (stackEffect m.header m.options.maxVectorElements r).pops := by
  have h := m.counts_effect r
  rw [← h.pops, ← h.pushes, ← List.length_reverse]
  exact List.drop_left

/-- A step adds at most one statement, at the end. -/
theorem statements_step (m : Machine) (r : Instruction) :
    (m.step r).statements = m.statements ++ (m.effect r).statement.toList := by
  show ((m.effect r).statement.toList ++ m.emitted).reverse = _
  rw [List.reverse_append]
  cases (m.effect r).statement <;> rfl

/-- **One step, counted.** In every state, an instruction takes `pops` fragments and puts
back `pushes`, leaves what lies below as it is, writes at most one statement after the
others, and counts as unresolved the fragments that the stack does not have and the operand
that the line does not give. -/
theorem step_refines_counters (m : Machine) (r : Instruction) :
    let limit := m.options.maxVectorElements
    let e := stackEffect m.header limit r
    (m.step r).stack.length = m.stack.length - min m.stack.length e.pops + e.pushes ∧
    (m.step r).stack.drop e.pushes = m.stack.drop e.pops ∧
    (∃ new, new.length ≤ 1 ∧ (m.step r).statements = m.statements ++ new) ∧
    (m.step r).unresolved =
      m.unresolved + (e.pops - min m.stack.length e.pops) + operandMisses limit r ∧
    (m.step r).counters = m.counters.step m.header limit r := by
  have h := m.counters_step r
  refine ⟨congrArg Counters.depth h, m.drop_stack_step r, ?_, congrArg Counters.unresolved h, h⟩
  refine ⟨(m.effect r).statement.toList, ?_, m.statements_step r⟩
  cases (m.effect r).statement <;> simp

theorem counters_foldl_step (m : Machine) (rs : List Instruction) :
    (rs.foldl step m).counters =
      rs.foldl (Counters.step m.header m.options.maxVectorElements) m.counters := by
  induction rs generalizing m with
  | nil => rfl
  | cons r rs ih =>
    rw [List.foldl_cons, List.foldl_cons, ih, counters_step]
    rfl

theorem counters_foldl_declare (m : Machine) (ds : List SlotDecl) :
    (ds.foldl declare m).counters = m.counters ∧ (ds.foldl declare m).header = m.header ∧
      (ds.foldl declare m).options = m.options := by
  induction ds generalizing m with
  | nil => exact ⟨rfl, rfl, rfl⟩
  | cons d ds ih => exact ih (m.declare d)

/-- **A whole run, counted**: what is unresolved and what is left on the stack at its end. -/
theorem counters_run (h : FunctionHeader) (b : Body) (options : MachineOptions) :
    let c := b.instructions.foldl (Counters.step h options.maxVectorElements) {}
    (interpret h b options).unresolvedOperands = c.unresolved ∧
      (interpret h b options).leftoverStack = c.depth := by
  obtain ⟨hc, hh, ho⟩ := counters_foldl_declare (start h options) b.locals
  have hr := counters_foldl_step (b.locals.foldl declare (start h options)) b.instructions
  rw [hc, hh, ho] at hr
  exact ⟨congrArg Counters.unresolved hr, congrArg Counters.depth hr⟩

end Machine

end PseudoMove
