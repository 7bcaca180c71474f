import PseudoMove.CommandLine.Console
import PseudoMove.Report
/-!
# Statistics for reading

The statistics of a module, laid out for people.
-/

namespace PseudoMove.CommandLine

open PseudoMove.Text

/-- A number of halves with one decimal. -/
def halvesText (n : Nat) : String := toString (n / 2) ++ if n % 2 = 0 then ".0" else ".5"

/-- The complexity of a module. That of a module without functions is an empty sum, which is shown as
a negative zero. -/
def totalText (a : ModuleStatistics) : String :=
  if a.functions = [] then "-0.0" else halvesText a.totalHalves

/-- A text with spaces after it up to a width. -/
def padTo (width : Nat) (s : String) : String :=
  s ++ String.ofList (List.replicate (width - s.length) ' ')

/-- The longest part of a function's name that is shown. -/
def nameWidth : Nat := 40

/-- The style that a complexity is shown in: the higher, the more alarming. -/
def complexityStyle (halves : Nat) : Style :=
  if 20 ≤ halves then .red else if 10 ≤ halves then .yellow else .green

/-- One function's line. -/
def functionLine (colored : Bool) (f : FunctionStatistics) : String :=
  "  " ++ paint colored .cyan (shorten f.name nameWidth) ++ " [" ++
    paint colored (complexityStyle f.halves) (halvesText f.halves) ++ "] " ++
    toString f.instructionCount ++ " instr" ++
    if f.leftoverStack > 0 then " (incomplete)" else ""

/-- A part with a heading and a blank line after it; a part without lines is left out. -/
def part (colored : Bool) (heading : String) (ls : List String) : List String :=
  if ls = [] then [] else paint colored .boldYellow heading :: ls ++ [""]

/-- The lines of the statistics of a module. -/
def statisticsLines (colored : Bool) (name : String) (module : Option PseudoModule)
    (a : ModuleStatistics) : List String :=
  let number (n : Nat) : String := paint colored .green (toString n)
  let unknown := a.unknownCount
  [paint colored .boldCyan ("Statistics for " ++ name),
    paint colored .cyan (String.ofList (List.replicate 40 '-')),
    "  Instructions: " ++ number a.instructionCount,
    "  Functions: " ++ number a.functions.length] ++
  (match module with
    | some m =>
      ["  Structs: " ++ number m.structs.length ++ " (" ++ counted m.fieldCount "field" "fields" ++
          ")",
        "  Statements: " ++ number m.statementCount]
    | none => []) ++
  ["  Total complexity: " ++ paint colored .green (totalText a)] ++
  (match a.mostComplex? with
    | some f =>
      ["  Most complex: " ++ paint colored .cyan (shorten f.name nameWidth) ++ " (" ++
        halvesText f.halves ++ ")"]
    | none => []) ++
  ["  Unknown opcodes: " ++
      paint colored (if unknown = 0 then .green else .yellow) (toString unknown),
    ""] ++
  part colored "Opcode families:"
    (a.familyFrequency.ranked.map fun e => "  " ++ padTo 14 e.1 ++ " " ++ toString e.2) ++
  part colored "Functions:" (a.functions.map (functionLine colored)) ++
  if a.unknownOpcodes = [] then []
  else
    paint colored .boldYellow "Unknown opcodes:" ::
      a.unknownOpcodes.map fun e => "  " ++ e.1 ++ " x" ++ toString e.2

end PseudoMove.CommandLine
