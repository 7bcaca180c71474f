/-!
# Progress

How far a batch of inputs has come: one step for each input, whatever becomes of it.
-/

namespace PseudoMove

/-- The number of inputs done and the last message. -/
structure Progress where
  position : Nat := 0
  message : String := ""
deriving DecidableEq, Repr

namespace Progress

/-- One more input done. -/
def advance (p : Progress) (message : String) : Progress where
  position := p.position + 1
  message

/-- The positions after each of some messages. -/
def positions (p : Progress) : List String → List Nat
  | [] => []
  | m :: ms => (p.advance m).position :: (p.advance m).positions ms

/-- The progress once a batch is done. -/
def finish (p : Progress) (message : String) : Progress := { p with message }

end Progress

end PseudoMove
