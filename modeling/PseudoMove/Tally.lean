/-!
# Tallies

A tally counts names and lists them in increasing order. `ranked` lists them by decreasing count, names
with equal counts in increasing order.
-/

namespace PseudoMove

/-- Names with their counts, in increasing order of the names. -/
abbrev Tally := List (String × Nat)

namespace Tally

/-- Counts a name once more. -/
def add (name : String) : Tally → Tally
  | [] => [(name, 1)]
  | (k, n) :: t =>
    if name = k then (k, n + 1) :: t
    else if name < k then (name, 1) :: (k, n) :: t
    else (k, n) :: add name t

/-- Counts some names. -/
def addAll (t : Tally) (names : List String) : Tally := names.foldl (fun t name => t.add name) t

/-- The number of names counted, repetitions included. -/
def total (t : Tally) : Nat := t.foldl (fun n entry => n + entry.2) 0

/-- The entries by decreasing count; the sort keeps the order of entries with equal counts. -/
def ranked (t : Tally) : List (String × Nat) := t.mergeSort fun a b => decide (b.2 ≤ a.2)

end Tally

end PseudoMove
