import PseudoMove.Statistics
import PseudoMove.Commentary
import PseudoMove.Listing.Pass
import PseudoMove.Machine
import PseudoMove.Source
/-!
# Decompilation

From a listing to pseudo-source. `Decompilation.ofText?` reads the declarations, runs every function on
a machine of its own and writes the module; it fails on a blank text and on a function with too many
instructions. `Outcome.ofText` never fails: where there is no decompilation, the outcome is the annotated
listing with the failure as its only warning.

Counters, depths and indentation are held in machine words. A count of unresolved operands, a depth of
parentheses or an indentation that does not fit is a failure as well. It takes extreme settings or a
huge fragment to get there, though a short body can build one.
-/

namespace PseudoMove

open Text

/-- A number that does not fit where it has to. -/
inductive Overflow where
  | unresolvedCount
  | parenthesisDepth
  | indentation
deriving DecidableEq, Repr

/-- How the overflow is told. -/
def Overflow.message : Overflow → String
  | .unresolvedCount | .parenthesisDepth => "attempt to add with overflow"
  | .indentation => "capacity overflow"

/-- Why a listing is not decompiled. -/
inductive DecompileFailure where
  | blankText
  | functionTooLong (name : String) (count limit : Nat)
  | overflow (what : Overflow)
deriving DecidableEq, Repr

/-- How the failure is told. -/
def DecompileFailure.message : DecompileFailure → String
  | .blankText => "Input contains no disassembly text"
  | .functionTooLong name count limit =>
    "Function " ++ name ++ " has " ++ toString count ++ " instructions (limit " ++ toString limit ++
      ")"
  | .overflow what => "Decompilation failed: " ++ what.message

/-! ### Running functions -/

/-- A function that has been run: its listing, its body and what the run came to. -/
structure FunctionRun where
  listed : FunctionListing
  body : Body
  result : Interpretation

namespace FunctionRun

/-- What is to be said about a run that was not complete. -/
def warnings (f : FunctionRun) : List String :=
  let about (text : String) : String := f.listed.name ++ ": " ++ text
  f.result.unknownOpcodes.map (fun m => about ("skipped unknown opcode " ++ m)) ++
    (if f.result.unresolvedOperands > 0 then
      [about (toString f.result.unresolvedOperands ++ " unresolved operand(s) rendered as ?")]
      else []) ++
    (if f.result.leftoverStack > 0 then
      [about (toString f.result.leftoverStack ++ " value(s) left on the stack")] else [])

/-- The numbers of the function. -/
def statistics (f : FunctionRun) : FunctionStatistics :=
  .ofInstructions f.listed.name f.body.instructions f.result.leftoverStack

/-- The choices for the machine. The limit on instructions limits vectors too. -/
def machineOptions (c : Config) : MachineOptions where
  emitBranchComments := c.emitBranchComments
  keepTypeArguments := c.keepTypeArguments
  maxVectorElements := c.maxInstructionsPerFunction

/-- The machine before the first instruction of a function. -/
def loaded (c : Config) (listed : FunctionListing) : Machine :=
  (Listing.body listed.bodyLines).locals.foldl Machine.declare
    (.start listed.toFunctionHeader (machineOptions c))

/-- Runs a function that has no more instructions than allowed. -/
def ofListing (c : Config) (listed : FunctionListing) : Except DecompileFailure FunctionRun :=
  let body := Listing.body listed.bodyLines
  let count := body.instructions.length
  if count > c.maxInstructionsPerFunction then
    .error (.functionTooLong listed.name count c.maxInstructionsPerFunction)
  else if !(loaded c listed).countsAll body.instructions then .error (.overflow .parenthesisDepth)
  else
    let result := interpret listed.toFunctionHeader body (machineOptions c)
    if result.unresolvedOperands < wordLimit then .ok { listed, body, result }
    else .error (.overflow .unresolvedCount)

end FunctionRun

/-! ### Decompiling a listing -/

/-- A module decompiled: its text, its declarations, what was not complete, and its statistics. -/
structure Decompilation where
  source : String
  module : PseudoModule
  warnings : List String
  statistics : ModuleStatistics

namespace Decompilation

/-- The name of a module without a header. -/
def unknownModule : String := "unknown"

/-- The module that the declarations of a listing and its functions, once run, make up. -/
def assemble (listing : Listing) (runs : List FunctionRun) : PseudoModule where
  name := listing.moduleName.getD unknownModule
  uses := listing.uses
  constants := listing.constants
  structs := listing.structs
  functions := runs.map fun f => f.result.function

/-- The statistics of functions that have been run. -/
def statisticsOf (runs : List FunctionRun) : ModuleStatistics :=
  runs.foldl (fun a f => a.add f.statistics f.body.instructions) {}

/-- The most spaces a line may be indented by. -/
def maxIndentation : Nat := wordLimit / 2 - 1

/-- Whether the lines of a module can be indented: a line at level one or deeper needs room for a step
of indentation. -/
def canIndent (c : Config) (ls : List SourceLine) : Bool :=
  c.indentSize ≤ maxIndentation || ls.all fun
    | .blank => true
    | .code level _ => level = 0

/-- Decompiles a listing, or tells why not. -/
def ofText? (c : Config) (text : String) : Except DecompileFailure Decompilation := do
  if trim text.toList = [] then .error .blankText
  else do
    let listing := Listing.read text
    let runs ← listing.functions.mapM (FunctionRun.ofListing c)
    let module := assemble listing runs
    if canIndent c (Source.moduleLines c module) then
      .ok {
        source := Source.render c module
        module
        warnings := runs.flatMap (·.warnings)
        statistics := statisticsOf runs }
    else .error (.overflow .indentation)

end Decompilation

/-- What a user gets for a listing. Without a module it is the annotated listing. -/
structure Outcome where
  source : String
  warnings : List String
  isSuccess : Bool
  module : Option PseudoModule
  statistics : ModuleStatistics

namespace Outcome

/-- Decompiles a listing, or annotates it. -/
def ofText (c : Config) (text : String) : Outcome :=
  match Decompilation.ofText? c text with
  | .ok d =>
    { source := d.source
      warnings := d.warnings
      isSuccess := true
      module := some d.module
      statistics := d.statistics }
  | .error e =>
    { source := annotate text
      warnings := [e.message]
      isSuccess := false
      module := none
      statistics := {} }

/-- Whether the source is only the annotated listing. -/
def isFallback (o : Outcome) : Bool := o.module.isNone

/-- The source, followed by the warnings as comments. -/
def display (o : Outcome) : String :=
  if o.warnings = [] then o.source
  else
    o.source ++ "\n// Warnings:\n" ++ String.join (o.warnings.map fun w => "// " ++ w ++ "\n")

end Outcome

/-! ### Notices -/

namespace Decompilation

/-- What reading a body tells: the lines that mean nothing. -/
def bodyNotices (listed : FunctionListing) : List Notice :=
  listed.bodyLines.filterMap fun l =>
    match Listing.bodyLine l.toList with
    | .other => some (.lineSkipped (trimmed l))
    | _ => none

/-- What running functions tells, up to the first that fails. -/
def runNotices (c : Config) : List FunctionListing → List Notice
  | [] => []
  | f :: fs =>
    bodyNotices f ++
      match FunctionRun.ofListing c f with
      | .ok r => r.result.notices ++ runNotices c fs
      | .error _ => []

/-- What decompiling a listing tells, in order. -/
def notices (c : Config) (text : String) : List Notice :=
  let fallback :=
    match ofText? c text with
    | .ok _ => []
    | .error e => [.fallingBack e.message]
  if trim text.toList = [] then fallback
  else
    let listing := Listing.read text
    Listing.readNotices text ++
      [.extracted listing.structs.length listing.functions.length] ++
      runNotices c listing.functions ++ fallback

end Decompilation

end PseudoMove
