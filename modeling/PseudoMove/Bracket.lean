import PseudoMove.Text.Blank
/-!
# Brackets

Types, call paths and parameter lists nest in four kinds of brackets. Depth counts them without regard
to kind. The two operations everything else rests on are finding the partner of an opening bracket and
splitting a list at the separators outside all brackets.
-/

namespace PseudoMove.Bracket

open PseudoMove.Text

/-- An opening bracket of any kind. -/
def isOpening (c : Char) : Bool := c == '<' || c == '(' || c == '[' || c == '{'

/-- A closing bracket of any kind. -/
def isClosing (c : Char) : Bool := c == '>' || c == ')' || c == ']' || c == '}'

/-! ### The partner of a bracket -/

/-- Splits the text behind an opening bracket at its partner, `depth` further brackets being open. -/
def splitAtClose (depth : Nat) : List Char → Option (List Char × List Char)
  | [] => none
  | c :: s =>
    if isOpening c then (splitAtClose (depth + 1) s).map fun r => (c :: r.1, r.2)
    else if isClosing c then
      match depth with
      | 0 => some ([], s)
      | d + 1 => (splitAtClose d s).map fun r => (c :: r.1, r.2)
    else (splitAtClose depth s).map fun r => (c :: r.1, r.2)

/-- The text behind an opening bracket as what it encloses and what follows its partner, or `none` if
it has no partner. -/
def enclosed? (s : List Char) : Option (List Char × List Char) := splitAtClose 0 s

/-- The number of bytes a text takes in UTF-8. -/
def byteLength (s : List Char) : Nat := (String.ofList s).utf8ByteSize

/-- What follows the first `n` bytes of a text, if they end between two characters. -/
def dropBytes? : Nat → List Char → Option (List Char)
  | 0, s => some s
  | _ + 1, [] => none
  | n + 1, c :: s => if c.utf8Size ≤ n + 1 then dropBytes? (n + 1 - c.utf8Size) s else none

/-- The byte offset of the partner of the bracket at byte offset `index`. -/
def partner? (s : List Char) (index : Nat) : Option Nat :=
  match dropBytes? index s with
  | some (c :: r) =>
    if isOpening c then (enclosed? r).map fun p => index + 1 + byteLength p.1 else none
  | _ => none

/-! ### Splitting outside brackets -/

/-- The bracket depth after a character. A closing bracket too many leaves it at zero. -/
def depthAfter (c : Char) (depth : Nat) : Nat :=
  if isOpening c then depth + 1 else if isClosing c then depth - 1 else depth

/-- The pieces between the separators at depth zero. -/
def topPieces (sep : Char) : Nat → List Char → List (List Char)
  | _, [] => [[]]
  | depth, c :: s =>
    let d := depthAfter c depth
    if c = sep ∧ d = 0 then [] :: topPieces sep d s
    else (topPieces sep d s).modifyHead (c :: ·)

/-- The parts of a list written with separators: trimmed, and without a last part that is empty. A
blank text is the empty list. -/
def splitOutside (sep : Char) (s : List Char) : List (List Char) :=
  if trim s = [] then []
  else
    let ps := (topPieces sep 0 s).map trim
    if ps.getLast? = some [] then ps.dropLast else ps

/-! ### Lengths -/

theorem length_of_splitAtClose {depth : Nat} {s : List Char} {r : List Char × List Char}
    (h : splitAtClose depth s = some r) : r.1.length + r.2.length + 1 = s.length := by
  induction s generalizing depth r with
  | nil => simp [splitAtClose] at h
  | cons c s ih =>
    have step : ∀ d, (splitAtClose d s).map (fun r => (c :: r.1, r.2)) = some r →
        r.1.length + r.2.length + 1 = (c :: s).length := fun d hd => by
      obtain ⟨q, hq, rfl⟩ := Option.map_eq_some_iff.1 hd
      simp only [List.length_cons]
      have := ih hq
      omega
    unfold splitAtClose at h
    split at h
    · exact step _ h
    · split at h
      · split at h
        · cases h; simp
        · exact step _ h
      · exact step _ h

theorem length_of_mem_topPieces {sep : Char} {depth : Nat} {s p : List Char}
    (h : p ∈ topPieces sep depth s) : p.length ≤ s.length := by
  induction s generalizing depth p with
  | nil => simp [topPieces] at h; simp [h]
  | cons c s ih =>
    simp only [topPieces] at h
    split at h
    · rcases List.mem_cons.1 h with rfl | h
      · simp
      · exact Nat.le_succ_of_le (ih h)
    · cases hq : topPieces sep (depthAfter c depth) s with
      | nil => rw [hq] at h; simp at h
      | cons q qs =>
        rw [hq] at h
        rcases List.mem_cons.1 h with rfl | h
        · simpa using ih (hq ▸ List.mem_cons_self)
        · exact Nat.le_succ_of_le (ih (hq ▸ List.mem_cons_of_mem _ h))

theorem length_of_mem_splitOutside {sep : Char} {s p : List Char}
    (h : p ∈ splitOutside sep s) : p.length ≤ s.length := by
  have key : p ∈ (topPieces sep 0 s).map trim → p.length ≤ s.length := fun hp => by
    obtain ⟨q, hq, rfl⟩ := List.mem_map.1 hp
    exact Nat.le_trans (length_trim_le q) (length_of_mem_topPieces hq)
  unfold splitOutside at h
  split at h
  · simp at h
  · simp only at h
    split at h
    · exact key ((List.dropLast_sublist _).mem h)
    · exact key h

end PseudoMove.Bracket
