import PseudoMove.Duration
import PseudoMove.Notice
import PseudoMove.Text.Phrase
/-!
# Messages

What a command writes besides its output. A message is a value; its text has a part that is the same in
every run and perhaps a part that is not, the number of workers or the time taken.
-/

namespace PseudoMove.CommandLine

open PseudoMove.Text

/-! ### Colours -/

/-- A way to set off a text on a terminal. -/
inductive Style where
  | red | green | yellow | cyan | boldYellow | boldCyan
deriving DecidableEq, Repr

/-- The terminal's code for a style. -/
def Style.code : Style → String
  | .red => "31" | .green => "32" | .yellow => "33" | .cyan => "36"
  | .boldYellow => "1;33" | .boldCyan => "1;36"

/-- A text in a style, if colours are wanted. -/
def paint (colored : Bool) (style : Style) (s : String) : String :=
  if colored then "\x1b[" ++ style.code ++ "m" ++ s ++ "\x1b[0m" else s

/-! ### Messages -/

/-- Something a command tells. -/
inductive Message where
  | notice (n : Notice)
  | decompiling (inputs workers : Nat)
  | decompiled (inputs : Nat)
  | wrote (path : String)
  | warning (text : String)
  | inputError (text : String)
  | failure (text : String)
deriving DecidableEq, Repr

namespace Message

/-- The tag in front of a message. -/
def tag (colored : Bool) : Message → String
  | .notice _ => ""
  | .decompiling _ _ => paint colored .cyan "[INFO]" ++ " "
  | .decompiled _ | .wrote _ => paint colored .green "[OK]" ++ " "
  | .warning _ => paint colored .yellow "[WARN]" ++ " "
  | .inputError _ => paint colored .red "[ERROR]" ++ " "
  | .failure _ => paint colored .red "[!]" ++ " "

/-- What a message says in every run. -/
def body : Message → String
  | .notice n => n.line
  | .decompiling inputs _ => "Decompiling " ++ counted inputs "input" "inputs"
  | .decompiled inputs => "Decompiled " ++ counted inputs "input" "inputs"
  | .wrote path => "Wrote " ++ path
  | .warning text | .inputError text | .failure text => text

/-- What a message adds about this run. -/
def addition (elapsed : Duration) : Message → String
  | .decompiling _ workers => " with " ++ toString workers ++ " worker(s)"
  | .decompiled _ => " in " ++ elapsed.format
  | _ => ""

/-- A message as a line. -/
def line (colored : Bool) (elapsed : Duration) (m : Message) : String :=
  m.tag colored ++ m.body ++ m.addition elapsed

end Message

end PseudoMove.CommandLine
