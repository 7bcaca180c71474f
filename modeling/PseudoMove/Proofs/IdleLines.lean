import PseudoMove.Proofs.Accounts

/-!
# Lines that leave no trace

Of a function body only the declarations of slots and the instructions that act matter, each of the
two in their order. Labels, lines that mean nothing, `Nop` and unknown opcodes may stand anywhere
among them: declarations are gathered before the first instruction runs, and an idle instruction
changes nothing but what the machine has to tell.

* `Machine.muted` — the machine without what it has skipped and told, which no
  instruction reads (`effect_muted`);
* `Machine.muted_step_of_idle`, `Machine.muted_foldl_step` — one idle instruction, and a
  run without its idle ones;
* `interpret_interleaved` — two bodies with the same declarations and the same active
  instructions, however interleaved.
-/

namespace PseudoMove

/-- Whether an instruction does anything: its opcode is known, and it is not `Nop`. -/
def Instruction.isActive (r : Instruction) : Bool := r.opcode.isKnown && r.opcode ≠ .nop

namespace BodyLine

/-- Whether the line declares a slot. -/
def isDeclaration : BodyLine → Bool
  | .declaration _ => true
  | _ => false

/-- Whether the line is an instruction that does anything. -/
def isActive : BodyLine → Bool
  | .instruction r => r.isActive
  | _ => false

/-- The mnemonic of an instruction with an unknown opcode. -/
def unknownMnemonic? : BodyLine → Option String
  | .instruction { opcode := .unknown mnemonic, .. } => some mnemonic
  | _ => none

end BodyLine

/-! ## Bodies -/

namespace Body

variable (ls : List BodyLine)

theorem locals_filter : (ofLines (ls.filter (·.isDeclaration))).locals = (ofLines ls).locals := by
  show (ls.filter _).filterMap _ = ls.filterMap _
  rw [List.filterMap_filter]
  refine List.filterMap_congr fun l _ => ?_
  cases l <;> rfl

theorem instructions_filter :
    (ofLines (ls.filter (·.isActive))).instructions =
      (ofLines ls).instructions.filter (·.isActive) := by
  show (ls.filter _).filterMap _ = (ls.filterMap _).filter _
  rw [List.filterMap_filter, List.filter_filterMap]
  refine List.filterMap_congr fun l _ => ?_
  cases l with
  | instruction r => cases h : r.isActive <;> simp [BodyLine.isActive, Option.filter, h]
  | _ => rfl

theorem unknownMnemonics_ofLines :
    ModuleStatistics.unknownMnemonics (ofLines ls).instructions =
      ls.filterMap (·.unknownMnemonic?) := by
  unfold ModuleStatistics.unknownMnemonics ofLines
  rw [List.filterMap_filterMap]
  refine List.filterMap_congr fun l _ => ?_
  cases l with
  | instruction r =>
    obtain ⟨_, opcode, _, _⟩ := r
    cases opcode <;> rfl
  | _ => rfl

end Body

/-! ## Runs -/

namespace Machine

/-- The machine without what it has skipped and told. -/
def muted (m : Machine) : Machine := { m with skipped := [], notices := [] }

/-- No instruction reads what was skipped or told before. -/
theorem effect_muted (m : Machine) (r : Instruction) : m.muted.effect r = m.effect r := by
  unfold effect
  cases r.opcode <;> rfl

theorem muted_step (m : Machine) (r : Instruction) : (m.muted.step r).muted = (m.step r).muted := by
  rw [step, effect_muted]
  rfl

/-- An idle instruction leaves no trace. -/
theorem muted_step_of_idle (m : Machine) {r : Instruction} (h : r.isActive = false) :
    (m.step r).muted = m.muted := by
  have hidle : r.opcode = .nop ∨ ∃ mnemonic, r.opcode = .unknown mnemonic := by
    revert h
    unfold Instruction.isActive
    cases r.opcode <;> simp [Opcode.isKnown]
  rcases hidle with hop | ⟨mnemonic, hop⟩ <;>
  · rw [step, effect, hop]
    simp [apply, muted]

theorem muted_foldl_step_congr {m n : Machine} (h : m.muted = n.muted) (rs : List Instruction) :
    (rs.foldl step m).muted = (rs.foldl step n).muted := by
  induction rs generalizing m n with
  | nil => exact h
  | cons r rs ih =>
    refine ih ?_
    rw [← muted_step m, ← muted_step n, h]

/-- **A run is the run of its active instructions**, but for what it skips and tells. -/
theorem muted_foldl_step (m : Machine) (rs : List Instruction) :
    (rs.foldl step m).muted = ((rs.filter (·.isActive)).foldl step m).muted := by
  induction rs generalizing m with
  | nil => rfl
  | cons r rs ih =>
    cases hr : r.isActive with
    | true => rw [List.filter_cons_of_pos hr, List.foldl_cons, List.foldl_cons, ih]
    | false =>
      rw [List.filter_cons_of_neg (Bool.eq_false_iff.1 hr), List.foldl_cons, ← ih]
      exact muted_foldl_step_congr (muted_step_of_idle m hr) rs

/-- What a run comes to does not depend on what it has skipped or told. -/
theorem result_of_muted {m n : Machine} (h : m.muted = n.muted) :
    m.result.function = n.result.function ∧ m.result.unresolvedOperands =
      n.result.unresolvedOperands ∧
      m.result.leftoverStack = n.result.leftoverStack := by
  have hresult : ∀ k : Machine, k.result.function = k.muted.result.function ∧
      k.result.unresolvedOperands = k.muted.result.unresolvedOperands ∧
      k.result.leftoverStack = k.muted.result.leftoverStack := fun _ => ⟨rfl, rfl, rfl⟩
  rw [(hresult m).1, (hresult m).2.1, (hresult m).2.2, h]
  exact hresult n |>.imp Eq.symm fun h => h.imp Eq.symm Eq.symm

end Machine

/-- **Only declarations and active instructions matter, and not how they are interleaved.** Two
bodies whose lines have the same declarations, in their order, and the same active instructions, in
theirs, give the same function, with as many unresolved operands and as much left on the stack. What
a body has of unknown opcodes is what its run skips. -/
theorem interpret_interleaved (h : FunctionHeader) (options : MachineOptions) {ls ls' : List String}
    (hdeclarations : (ls.map fun l => Listing.bodyLine l.toList).filter (·.isDeclaration) =
      (ls'.map fun l => Listing.bodyLine l.toList).filter (·.isDeclaration))
    (hactive : (ls.map fun l => Listing.bodyLine l.toList).filter (·.isActive) =
      (ls'.map fun l => Listing.bodyLine l.toList).filter (·.isActive)) :
    let i := interpret h (Listing.body ls) options
    let i' := interpret h (Listing.body ls') options
    i.function = i'.function ∧ i.unresolvedOperands = i'.unresolvedOperands ∧
    i.leftoverStack = i'.leftoverStack ∧
      i.unknownOpcodes = ls.filterMap (fun l => (Listing.bodyLine l.toList).unknownMnemonic?) ∧
      i'.unknownOpcodes = ls'.filterMap fun l => (Listing.bodyLine l.toList).unknownMnemonic? := by
  intro i i'
  have hlocals : (Listing.body ls).locals = (Listing.body ls').locals := by
    rw [Listing.body, ← Body.locals_filter, hdeclarations, Body.locals_filter, Listing.body]
  have hinstructions : (Listing.body ls).instructions.filter (·.isActive) =
      (Listing.body ls').instructions.filter (·.isActive) := by
    rw [Listing.body, ← Body.instructions_filter, hactive, Body.instructions_filter, Listing.body]
  have hrun : ((Machine.start h options).run (Listing.body ls)).muted =
      ((Machine.start h options).run (Listing.body ls')).muted := by
    rw [Machine.run, Machine.muted_foldl_step, hlocals, hinstructions,
      ← Machine.muted_foldl_step, Machine.run]
  have hunknown : ∀ ls : List String, (interpret h (Listing.body ls) options).unknownOpcodes =
      ls.filterMap fun l => (Listing.bodyLine l.toList).unknownMnemonic? := by
    intro ls
    rw [unknownOpcodes_interpret, Listing.body, Body.unknownMnemonics_ofLines, List.filterMap_map]
    rfl
  obtain ⟨hfunction, hunresolved, hleft⟩ := Machine.result_of_muted hrun
  exact ⟨hfunction, hunresolved, hleft, hunknown ls, hunknown ls'⟩

/-- A body with labels, remarks and idle instructions, and declarations between its instructions. -/
def scatteredLines : List String :=
  ["B0:", "\t0: Frobnicate(3)", "L1: kept: u64", "\t1: MoveLoc[0](Arg0: u64)", "\t2: Nop",
    "  // spills", "\t3: StLoc[1]",
    "L2: flag: bool", "\t4: Weird", "B1:", "\t5: StLoc[2]", "\t6: Ret"]

/-- The same without what leaves no trace, the declarations first. -/
def gatheredLines : List String :=
  ["L1: kept: u64", "L2: flag: bool", "\t1: MoveLoc[0](Arg0: u64)", "\t3: StLoc[1]",
    "\t5: StLoc[2]", "\t6: Ret"]

theorem interpret_interleaved_scattered :
    let h : FunctionHeader := { name := "keep", parameters := [⟨"Arg0", "u64"⟩] }
    ((scatteredLines.map fun l => Listing.bodyLine l.toList).filter (·.isDeclaration) =
        (gatheredLines.map fun l => Listing.bodyLine l.toList).filter (·.isDeclaration) ∧
      (scatteredLines.map fun l => Listing.bodyLine l.toList).filter (·.isActive) =
        (gatheredLines.map fun l => Listing.bodyLine l.toList).filter (·.isActive)) ∧
    (interpret h (Listing.body scatteredLines) {}).function =
      (interpret h (Listing.body gatheredLines) {}).function ∧
    (interpret h (Listing.body scatteredLines) {}).unresolvedOperands = 1 ∧
    (interpret h (Listing.body scatteredLines) {}).unknownOpcodes = ["Frobnicate", "Weird"] := by
  intro h
  have hdeclarations :
      (scatteredLines.map fun l => Listing.bodyLine l.toList).filter (·.isDeclaration) =
        (gatheredLines.map fun l => Listing.bodyLine l.toList).filter (·.isDeclaration) := by
    decide +kernel
  have hactive : (scatteredLines.map fun l => Listing.bodyLine l.toList).filter (·.isActive) =
      (gatheredLines.map fun l => Listing.bodyLine l.toList).filter (·.isActive) := by
    decide +kernel
  obtain ⟨hfunction, hunresolved, -, hunknown, -⟩ :=
    interpret_interleaved h {} hdeclarations hactive
  refine ⟨⟨hdeclarations, hactive⟩, hfunction, hunresolved.trans ?_, hunknown.trans ?_⟩ <;>
    decide +kernel

end PseudoMove
