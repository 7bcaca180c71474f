import PseudoMove.Instruction
import PseudoMove.Tally
/-!
# Statistics

What there is to count in a module's bytecode: how often each family of opcodes occurs, which opcodes
are unknown, and the size and complexity of every function. Complexity is one for the function, one
for each branch and a half for each call; it is kept as a number of halves.
-/

namespace PseudoMove

/-- The numbers of one function. -/
structure FunctionStatistics where
  name : String
  instructionCount : Nat
  branchCount : Nat
  callCount : Nat
  leftoverStack : Nat
deriving DecidableEq, Repr

namespace FunctionStatistics

/-- The numbers of a function with some instructions and `leftover` values on its stack at the end. -/
def ofInstructions (name : String) (rs : List Instruction) (leftover : Nat) : FunctionStatistics where
  name
  instructionCount := rs.length
  branchCount := rs.countP fun r => r.opcode.isBranch
  callCount := rs.countP fun r => r.opcode = .call
  leftoverStack := leftover

/-- The complexity of a function in halves. -/
def halves (f : FunctionStatistics) : Nat := 2 + 2 * f.branchCount + f.callCount

end FunctionStatistics

/-- The statistics of a module. -/
structure ModuleStatistics where
  instructionCount : Nat := 0
  familyFrequency : Tally := []
  unknownOpcodes : Tally := []
  functions : List FunctionStatistics := []
deriving DecidableEq, Repr

namespace ModuleStatistics

/-- The mnemonics of unknown opcodes, in order. -/
def unknownMnemonics (rs : List Instruction) : List String :=
  rs.filterMap fun r =>
    match r.opcode with
    | .unknown mnemonic => some mnemonic
    | _ => none

/-- Adds a function with its instructions. -/
def add (a : ModuleStatistics) (f : FunctionStatistics) (rs : List Instruction) :
    ModuleStatistics where
  instructionCount := a.instructionCount + rs.length
  familyFrequency := a.familyFrequency.addAll (rs.map fun r => r.opcode.family)
  unknownOpcodes := a.unknownOpcodes.addAll (unknownMnemonics rs)
  functions := a.functions ++ [f]

/-- The `n` most frequent families. -/
def topFamilies (a : ModuleStatistics) (n : Nat) : List (String × Nat) :=
  a.familyFrequency.ranked.take n

/-- The complexity of all functions together, in halves. -/
def totalHalves (a : ModuleStatistics) : Nat := a.functions.foldl (fun n f => n + f.halves) 0

/-- The function of greatest complexity, of several the last. -/
def mostComplex? (a : ModuleStatistics) : Option FunctionStatistics :=
  a.functions.foldl (fun best f =>
    match best with
    | some b => if b.halves ≤ f.halves then some f else some b
    | none => some f) none

/-- The names of the functions that leave values on their stacks. -/
def incomplete (a : ModuleStatistics) : List String :=
  (a.functions.filter fun f => f.leftoverStack > 0).map (·.name)

/-- How many instructions are unknown. -/
def unknownCount (a : ModuleStatistics) : Nat := a.unknownOpcodes.total

end ModuleStatistics

end PseudoMove
