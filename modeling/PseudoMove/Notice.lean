import PseudoMove.Text.Case
/-!
# Notices

What the program tells about its work besides its results, as values: each notice has a level, the part
of the program that it comes from and a text. They are gathered while the work is done, in order, and
the command line shows those that the chosen level lets through.
-/

namespace PseudoMove

/-- How important a notice is. -/
inductive Level where
  | error | warn | info | debug | trace
deriving DecidableEq, Repr

namespace Level

/-- The level's rank: the more detail, the higher. -/
def rank : Level → Nat
  | .error => 1 | .warn => 2 | .info => 3 | .debug => 4 | .trace => 5

/-- The level's name. -/
def name : Level → String
  | .error => "ERROR" | .warn => "WARN" | .info => "INFO" | .debug => "DEBUG" | .trace => "TRACE"

end Level

/-- The most detailed level that is shown; `none` shows nothing. -/
abbrev Threshold := Option Level

namespace Threshold

/-- Whether notices of a level are shown. -/
def admits (t : Threshold) (l : Level) : Bool := t.any fun m => l.rank ≤ m.rank

/-- The threshold that a word asks for, in any case. A word that is none asks for warnings. -/
def ofWord (word : String) : Threshold :=
  match String.ofList (Text.lower word.toList) with
  | "off" => none
  | "error" => some .error
  | "info" => some .info
  | "debug" => some .debug
  | "trace" => some .trace
  | _ => some .warn

/-- The threshold's name. -/
def name : Threshold → String
  | none => "OFF"
  | some l => l.name

end Threshold

/-- An event worth telling. -/
inductive Notice where
  | configLoaded (path : String)
  | structUnclosed (name : String)
  | functionUnclosed (name : String)
  | structAtEnd (name : String)
  | functionAtEnd (name : String)
  | signatureRejected (line : String)
  | extracted (structs functions : Nat)
  | lineSkipped (line : String)
  | opcodeSkipped (function mnemonic : String) (offset : Nat)
  | countCapped (function : String) (count offset limit : Nat)
  | fragmentsLeft (function : String) (count : Nat)
  | fallingBack (reason : String)
  | warned (input warning : String)
deriving DecidableEq, Repr

namespace Notice

/-- The level of a notice. -/
def level : Notice → Level
  | .configLoaded _ | .structUnclosed _ | .functionUnclosed _ | .structAtEnd _ | .functionAtEnd _
  | .extracted _ _ | .opcodeSkipped _ _ _ | .countCapped _ _ _ _ | .fragmentsLeft _ _ => .debug
  | .signatureRejected _ | .lineSkipped _ => .trace
  | .fallingBack _ => .warn
  | .warned _ _ => .info

/-- The part of the program that a notice names as its origin. -/
def origin : Notice → String
  | .configLoaded _ => "move_decompiler::config"
  | .structUnclosed _ | .functionUnclosed _ | .structAtEnd _ | .functionAtEnd _
  | .signatureRejected _ => "move_decompiler::decompiler::extractor"
  | .extracted _ _ | .fallingBack _ => "move_decompiler::decompiler"
  | .lineSkipped _ => "move_decompiler::decompiler::tokenizer"
  | .opcodeSkipped _ _ _ | .countCapped _ _ _ _ | .fragmentsLeft _ _ =>
    "move_decompiler::decompiler::interpreter"
  | .warned _ _ => "move_decompiler::ui::cli::handler"

/-- What a notice says. -/
def message : Notice → String
  | .configLoaded path => "loaded config from " ++ path
  | .structUnclosed name =>
    "struct " ++ name ++ " is not closed before the next header; dropping it"
  | .functionUnclosed name => "function " ++ name ++ " is not closed before the next header"
  | .structAtEnd name => "struct " ++ name ++ " runs to end of input; dropping it"
  | .functionAtEnd name => "function " ++ name ++ " runs to end of input"
  | .signatureRejected line => "rejected signature: " ++ line
  | .extracted structs functions =>
    "extracted " ++ toString structs ++ " struct(s) and " ++ toString functions ++ " function(s)"
  | .lineSkipped line => "skipping body line: " ++ line
  | .opcodeSkipped function mnemonic offset =>
    function ++ ": skipping unknown opcode " ++ mnemonic ++ " at " ++ toString offset
  | .countCapped function count offset limit =>
    function ++ ": element count " ++ toString count ++ " at " ++ toString offset ++ " exceeds " ++
      toString limit
  | .fragmentsLeft function count =>
    function ++ ": " ++ toString count ++ " fragment(s) left on the stack"
  | .fallingBack reason => "falling back to annotated disassembly: " ++ reason
  | .warned input warning => input ++ ": " ++ warning

/-- A notice as it is shown: the level padded to five characters, the origin and the text. -/
def line (n : Notice) : String :=
  let name := n.level.name
  let pad := String.ofList (List.replicate (5 - name.length) ' ')
  "[" ++ name ++ pad ++ " " ++ n.origin ++ "] " ++ n.message

end Notice

end PseudoMove
