/-!
# Fixed phrases in a text

Taking a fixed phrase off either end of a text, finding its first occurrence and replacing every one.
-/

namespace PseudoMove.Text

/-- What follows `pat` in a text that begins with it. -/
def afterPrefix? : List Char → List Char → Option (List Char)
  | [], s => some s
  | _ :: _, [] => none
  | p :: ps, c :: s => if p = c then afterPrefix? ps s else none

/-- What stands before `pat` in a text that ends with it. -/
def beforeSuffix? (pat s : List Char) : Option (List Char) :=
  (afterPrefix? pat.reverse s.reverse).map List.reverse

/-- Whether `pat` occurs in a text. -/
def occursIn (pat : List Char) : List Char → Bool
  | [] => pat.isEmpty
  | c :: s => pat.isPrefixOf (c :: s) || occursIn pat s

/-- The text before the first occurrence of `pat`, or all of it. -/
def before (pat : List Char) : List Char → List Char
  | [] => []
  | c :: s => if pat.isPrefixOf (c :: s) then [] else c :: before pat s

/-- Replaces `pat` from left to right, with `k` characters of an occurrence already replaced still to
be passed over. -/
def replaceFrom (pat new : List Char) : Nat → List Char → List Char
  | _, [] => []
  | k + 1, _ :: s => replaceFrom pat new k s
  | 0, c :: s =>
    if pat.isPrefixOf (c :: s) then new ++ replaceFrom pat new (pat.length - 1) s
    else c :: replaceFrom pat new 0 s

/-- A text with every occurrence of the nonempty `pat`, found from left to right without overlap,
replaced by `new`. -/
def replace (pat new s : List Char) : List Char := replaceFrom pat new 0 s

theorem afterPrefix?_eq_some_iff {pat s r : List Char} :
    afterPrefix? pat s = some r ↔ s = pat ++ r := by
  induction pat generalizing s with
  | nil => simp [afterPrefix?]
  | cons p ps ih =>
    cases s with
    | nil => simp [afterPrefix?]
    | cons c s =>
      by_cases h : p = c
      · simp [afterPrefix?, h, ih]
      · simp [afterPrefix?, h, Ne.symm h]

theorem length_le_of_afterPrefix? {pat s r : List Char} (h : afterPrefix? pat s = some r) :
    r.length ≤ s.length := by
  simp [afterPrefix?_eq_some_iff.1 h]

end PseudoMove.Text
