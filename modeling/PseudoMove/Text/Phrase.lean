/-!
# Phrases

Small pieces of wording in reports: shortened names, counted nouns and indentation.
-/

namespace PseudoMove.Text

/-- A text of at most `width` characters. A longer one is cut, and an ellipsis of three dots takes
part of the width if there is room for it. -/
def shorten (s : String) (width : Nat) : String :=
  let cs := s.toList
  if cs.length ≤ width then s
  else if 3 ≤ width then String.ofList (cs.take (width - 3)) ++ "..."
  else String.ofList (cs.take width)

/-- A number with the form of a noun that goes with it. -/
def counted (n : Nat) (one many : String) : String :=
  toString n ++ " " ++ if n = 1 then one else many

/-- `level` steps of indentation, `size` spaces each. -/
def indentation (level size : Nat) : String := String.ofList (List.replicate (level * size) ' ')

end PseudoMove.Text
