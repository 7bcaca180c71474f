import PseudoMove.Decompilation
import PseudoMove.Json.Printer
import PseudoMove.Module.Json
/-!
# Reports

What is written for one input: pseudo-source with its warnings, or a JSON record that holds the module
(or the annotated listing in its place). A second record holds the statistics.
-/

namespace PseudoMove

open Json

namespace Report

/-- The record of an outcome. It has a module or a fallback text, never both. -/
def outcomeJson (input : String) (o : Outcome) : Json :=
  .object (
    [("input", .string input), ("success", .bool o.isSuccess)] ++
      (match o.module with
        | some m => [("module", m.toJson)]
        | none => [("fallback", .string o.source)]) ++
      [("warnings", strings o.warnings)])

/-- A tally as an object. -/
def tallyJson (t : Tally) : Json := .object (t.map fun e => (e.1, .nat e.2))

/-- The record of a function's numbers. -/
def functionJson (f : FunctionStatistics) : Json :=
  .object [("name", .string f.name), ("instruction_count", .nat f.instructionCount),
    ("branch_count", .nat f.branchCount), ("call_count", .nat f.callCount),
    ("complexity", .halves f.halves), ("leftover_stack", .nat f.leftoverStack)]

/-- The record of a module's statistics. -/
def statisticsJson (input : String) (a : ModuleStatistics) : Json :=
  .object [("input", .string input), ("instruction_count", .nat a.instructionCount),
    ("family_frequency", tallyJson a.familyFrequency),
    ("unknown_opcodes", tallyJson a.unknownOpcodes),
    ("functions", .array (a.functions.map functionJson))]

end Report

/-- The form in which an outcome is written. -/
inductive ReportFormat where
  | text
  | json
deriving DecidableEq, Repr

namespace ReportFormat

/-- The format that a word names. -/
def ofWord? : String → Option ReportFormat
  | "text" => some .text
  | "json" => some .json
  | _ => none

/-- The ending of files in this format. -/
def extension : ReportFormat → String
  | .text => "move"
  | .json => "json"

/-- An outcome in this format. -/
def render (format : ReportFormat) (input : String) (o : Outcome) : String :=
  match format with
  | .text => o.display
  | .json => print .pretty (Report.outcomeJson input o)

end ReportFormat

end PseudoMove
