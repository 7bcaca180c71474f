import PseudoMove.CommandLine.Options
/-!
# Commands

The three commands with their options. Some options may stand on either side of the command's name;
where one is given on both sides, the one behind the name counts.
-/

namespace PseudoMove.CommandLine

open PseudoMove.Text

/-- Options of every command. -/
structure CommonOptions where
  logLevel : String := "warn"
  quiet : Bool := false
  noColor : Bool := false
deriving DecidableEq, Repr

/-- The options of decompilation. -/
structure DecompileOptions where
  inputs : List String
  output : Option String := none
  format : ReportFormat := .text
  config : Option String := none
  jobs : Option Nat := none
  keepTypeArguments : Bool := false
  noBranchComments : Bool := false
  noProgress : Bool := false
deriving DecidableEq, Repr

/-- A command. -/
inductive Command where
  | decompile (options : DecompileOptions)
  | annotate (input : String) (output : Option String)
  | stats (input : String) (config : Option String) (json : Bool)
deriving DecidableEq, Repr

/-- A command with its common options. -/
structure Invocation where
  common : CommonOptions
  command : Command
deriving DecidableEq, Repr

/-- Whether a word may be a path. -/
def isPath (word : String) : Bool := word ≠ ""

/-- The options that may stand on either side of a command's name. -/
def commonSpecs : List OptionSpec :=
  [{ long := "log-level", short := some 'l', kind := .value fun _ => true },
    { long := "quiet", short := some 'q', kind := .flag },
    { long := "no-color", kind := .flag },
    { long := "help", short := some 'h', kind := .help }]

/-- The names of the commands, and the word that asks for help. -/
def commandNames : List String := ["decompile", "annotate", "stats", "help"]

/-- What may stand in front of a command's name. -/
def outerGrammar : Grammar where
  options := commonSpecs ++ [{ long := "version", short := some 'V', kind := .version }]
  subcommands := commandNames

/-- An option whose value is a path. -/
def pathOption (long : String) (short : Char) : OptionSpec :=
  { long, short := some short, kind := .value isPath }

/-- What may stand behind `decompile`. -/
def decompileGrammar : Grammar where
  options := commonSpecs ++
    [pathOption "output" 'o', pathOption "config" 'c',
      { long := "format", short := some 'f',
        kind := .value fun v => (ReportFormat.ofWord? v).isSome },
      { long := "jobs", short := some 'j',
        kind := .value fun v => (readWord? v.toList).isSome },
      { long := "keep-type-arguments", kind := .flag },
      { long := "no-branch-comments", kind := .flag },
      { long := "no-progress", kind := .flag }]
  isOperand := isPath
  severalOperands := true

/-- What may stand behind `annotate`. -/
def annotateGrammar : Grammar where
  options := commonSpecs ++ [pathOption "output" 'o']
  isOperand := isPath

/-- What may stand behind `stats`. -/
def statsGrammar : Grammar where
  options := commonSpecs ++ [pathOption "config" 'c', { long := "json", kind := .flag }]
  isOperand := isPath

/-- The common options given on both sides of a command's name. -/
def commonOptions (outer inner : Words) : CommonOptions where
  logLevel :=
    ((inner.values.lookup "log-level").or (outer.values.lookup "log-level")).getD "warn"
  quiet := outer.has "quiet" || inner.has "quiet"
  noColor := outer.has "no-color" || inner.has "no-color"

/-- The one operand of a command that takes one. -/
def oneOperand (w : Words) : Except Stop String :=
  match w.operands with
  | [input] => .ok input
  | _ => .error .misuse

/-- Help on a command, asked for by the words behind `help`. -/
def helpOn : List String → Stop
  | [] => .help
  | [name] => if name ∈ commandNames then .help else .misuse
  | _ => .misuse

/-- Reads the words behind a command's name. -/
def readCommand (name : String) (words : List String) : Except Stop (Words × Command) :=
  match name with
  | "decompile" => do
    let w ← readWords decompileGrammar words
    if w.operands = [] then .error .misuse
    else
      .ok (w, .decompile {
        inputs := w.operands
        output := w.values.lookup "output"
        format := ((w.values.lookup "format").bind ReportFormat.ofWord?).getD .text
        config := w.values.lookup "config"
        jobs := (w.values.lookup "jobs").bind fun v => readWord? v.toList
        keepTypeArguments := w.has "keep-type-arguments"
        noBranchComments := w.has "no-branch-comments"
        noProgress := w.has "no-progress" })
  | "annotate" => do
    let w ← readWords annotateGrammar words
    .ok (w, .annotate (← oneOperand w) (w.values.lookup "output"))
  | "stats" => do
    let w ← readWords statsGrammar words
    .ok (w, .stats (← oneOperand w) (w.values.lookup "config") (w.has "json"))
  | _ => .error (helpOn words)

/-- Reads a command line, without the program's name. -/
def readInvocation (words : List String) : Except Stop Invocation := do
  let outer ← readWords outerGrammar words
  match outer.subcommand with
  | none => .error .misuse
  | some (name, rest) =>
    let (inner, command) ← readCommand name rest
    .ok { common := commonOptions outer inner, command }

end PseudoMove.CommandLine
