import PseudoMove.Report
import PseudoMove.Text.Word
/-!
# Command-line words

How the words of a command line are taken apart before they mean anything. Options are long, as in
`--output=x` and `--output x`, or short, as in `-o x`, `-ox` and `-o=x`, and short ones may share a
hyphen. After `--` every word is an operand. An option is given at most once, and the value of one is
never taken from a word that looks like an option. `readWords` reads the words in front of a
subcommand, or all of them where there is none.
-/

namespace PseudoMove.CommandLine

open PseudoMove.Text

/-- What an option does. The value of one that takes one has to be accepted. -/
inductive OptionKind where
  | flag
  | value (accepts : String → Bool)
  | help
  | version

/-- An option with its names. -/
structure OptionSpec where
  long : String
  short : Option Char := none
  kind : OptionKind

/-- Why there is no command to carry out. -/
inductive Stop where
  | help
  | version
  | misuse
deriving DecidableEq, Repr

/-- What was read: the options with their values, the operands, and the words behind a subcommand. -/
structure Words where
  flags : List String := []
  values : List (String × String) := []
  operands : List String := []
  subcommand : Option (String × List String) := none
deriving DecidableEq, Repr

namespace Words

/-- Whether an option was given. -/
def has (w : Words) (long : String) : Bool :=
  w.flags.contains long || (w.values.lookup long).isSome

/-- One more flag. -/
def addFlag (w : Words) (long : String) : Except Stop Words :=
  if w.has long then .error .misuse else .ok { w with flags := w.flags ++ [long] }

/-- One more option with a value. -/
def addValue (w : Words) (long : String) (accepts : String → Bool) (value : String) :
    Except Stop Words :=
  if w.has long || !accepts value then .error .misuse
  else .ok { w with values := w.values ++ [(long, value)] }

end Words

/-- What may be written at one place: options, subcommands, and operands of a certain form, of which
there may be several or one at most. -/
structure Grammar where
  options : List OptionSpec
  subcommands : List String := []
  isOperand : String → Bool := fun _ => false
  severalOperands : Bool := false

/-- One more operand. -/
def Grammar.addOperand (g : Grammar) (w : Words) (word : String) : Except Stop Words :=
  if g.isOperand word && (g.severalOperands || w.operands.isEmpty) then
    .ok { w with operands := w.operands ++ [word] }
  else .error .misuse

/-- An option that still waits for its value. -/
structure Waiting where
  long : String
  accepts : String → Bool

/-- Reads the letters behind one hyphen. The first option with a value takes the rest as its value, with
or without an equals sign, or waits for the next word if there is no rest. -/
def readShort (g : Grammar) (w : Words) : List Char → Except Stop (Words × Option Waiting)
  | [] => .ok (w, none)
  | c :: rest =>
    match g.options.find? fun o => o.short = some c with
    | none => .error .misuse
    | some o =>
      match o.kind with
      | .flag => do readShort g (← w.addFlag o.long) rest
      | .help => .error .help
      | .version => .error .version
      | .value accepts =>
        match rest with
        | [] => .ok (w, some ⟨o.long, accepts⟩)
        | '=' :: v => (w.addValue o.long accepts (String.ofList v)).map (·, none)
        | v => (w.addValue o.long accepts (String.ofList v)).map (·, none)

/-- Reads what stands behind two hyphens. -/
def readLong (g : Grammar) (w : Words) (text : List Char) :
    Except Stop (Words × Option Waiting) :=
  let name := String.ofList (text.takeWhile (· ≠ '='))
  let attached : Option String :=
    match text.dropWhile (· ≠ '=') with
    | [] => none
    | _ :: v => some (String.ofList v)
  match g.options.find? fun o => o.long = name with
  | none => .error .misuse
  | some o =>
    match o.kind, attached with
    | .value accepts, some v => (w.addValue o.long accepts v).map (·, none)
    | .value accepts, none => .ok (w, some ⟨o.long, accepts⟩)
    | _, some _ => .error .misuse
    | .flag, none => (w.addFlag o.long).map (·, none)
    | .help, none => .error .help
    | .version, none => .error .version

/-- Reads words, an option perhaps waiting for its value; `operandsOnly` holds after `--`. -/
def readFrom (g : Grammar) (w : Words) (waiting : Option Waiting) (operandsOnly : Bool) :
    List String → Except Stop Words
  | [] => if waiting.isSome then .error .misuse else .ok w
  | word :: rest =>
    if operandsOnly then
      do readFrom g (← g.addOperand w word) waiting true rest
    else
      match waiting, word.toList with
      | some _, '-' :: _ :: _ => .error .misuse
      | some o, _ => do readFrom g (← w.addValue o.long o.accepts word) none false rest
      | none, ['-', '-'] => readFrom g w none true rest
      | none, '-' :: '-' :: text => do
        let (w, waiting) ← readLong g w text
        readFrom g w waiting false rest
      | none, '-' :: c :: text => do
        let (w, waiting) ← readShort g w (c :: text)
        readFrom g w waiting false rest
      | none, _ =>
        if word ∈ g.subcommands then .ok { w with subcommand := some (word, rest) }
        else do readFrom g (← g.addOperand w word) none false rest

/-- Reads the words of a command line at one place. -/
def readWords (g : Grammar) (words : List String) : Except Stop Words := readFrom g {} none false words

end PseudoMove.CommandLine
