/-!
# Runs of code points

A class of characters outside ASCII is a table of runs of code points, written down here as first
and last member, with a stride where every second code point belongs to the class.
-/

namespace PseudoMove.Text

/-- Whether `n` lies in one of the runs, ends included. -/
def inRuns (runs : List (Nat × Nat)) (n : Nat) : Bool :=
  runs.any fun r => r.1 ≤ n && n ≤ r.2

/-- Whether `n` is reached from the first code point of a run by whole strides, up to its last. -/
def inStrides (runs : List (Nat × Nat × Nat)) (n : Nat) : Bool :=
  runs.any fun r => r.1 ≤ n && n ≤ r.2.1 && (n - r.1) % r.2.2 == 0

end PseudoMove.Text
