import PseudoMove.Listing.Line
import PseudoMove.Text.Lines
/-!
# Annotated listings

A listing that is not decompiled is shown as it is, with a comment behind each instruction whose opcode
is known.
-/

namespace PseudoMove

open Text

/-- A line of a listing with its comment. -/
def annotateLine (line : List Char) : String :=
  match Listing.instruction? line with
  | some r =>
    if r.opcode.isKnown then String.ofList line ++ "  // " ++ r.opcode.describe
    else String.ofList line
  | none => String.ofList line

/-- A listing with its comments, every line ended by a newline. -/
def annotate (text : String) : String :=
  String.join ((lines text.toList).map fun l => annotateLine l ++ "\n")

end PseudoMove
