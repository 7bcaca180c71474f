/-!
# Unique names

Within a function every name is handed out once. The first request for a base name gets the name
itself, later ones get it with the least free number behind it. A counter for each base remembers how
far its numbers have been tried.
-/

namespace PseudoMove

/-- Taking out one key leaves the others. -/
theorem lookup_filter_ne {α β : Type} [BEq α] [LawfulBEq α] [DecidableEq α] {x y : α} (h : x ≠ y)
    (l : List (α × β)) : (l.filter (·.1 ≠ y)).lookup x = l.lookup x := by
  induction l with
  | nil => rfl
  | cons p l ih =>
    obtain ⟨k, v⟩ := p
    by_cases hk : k = y
    · have hne : (x == k) = false := beq_false_of_ne (hk ▸ h)
      rw [List.filter_cons_of_neg (by simpa using hk), ih, List.lookup_cons, hne]
    · rw [List.filter_cons_of_pos (by simpa using hk), List.lookup_cons, List.lookup_cons, ih]

/-- The names handed out, and for each base the first number that has not been tried. -/
structure NameSupply where
  counters : List (String × Nat) := []
  used : List String := []
deriving Repr

namespace NameSupply

/-- The `k`-th name made from a base. -/
def candidate (base : String) (k : Nat) : String :=
  if k = 0 then base else base ++ "_" ++ toString k

/-- The first number from `k` on whose name is not used, found in at most `tries` tries or else the
number after them. -/
def firstFree (used : List String) (base : String) : Nat → Nat → Nat
  | 0, k => k
  | tries + 1, k =>
    if candidate base k ∈ used then firstFree used base tries (k + 1) else k

/-- The first number of a base that has not been tried. -/
def counter (a : NameSupply) (base : String) : Nat := (a.counters.lookup base).getD 0

/-- The base that a request stands for: an empty one asks for `value`. -/
def baseOf (base : String) : String := if base = "" then "value" else base

/-- Hands out a name made from a base. Of one more candidate than there are names used, one is free. -/
def fresh (a : NameSupply) (base : String) : String × NameSupply :=
  let base := baseOf base
  let k := firstFree a.used base a.used.length (a.counter base)
  let name := candidate base k
  (name, {
    counters := (base, k + 1) :: a.counters.filter (·.1 ≠ base)
    used := name :: a.used })

/-- Whether a name has been handed out. -/
def isUsed (a : NameSupply) (name : String) : Bool := a.used.contains name

end NameSupply

end PseudoMove
