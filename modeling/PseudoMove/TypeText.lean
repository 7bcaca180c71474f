import PseudoMove.Bracket
import PseudoMove.Text.Search
/-!
# Types as text

A listing writes types as text, such as `&mut 0x2::coin::Coin<SUI>`. Nothing is resolved here: these
functions read off the parts that naming and arity depend on.
-/

namespace PseudoMove.TypeText

open PseudoMove.Text PseudoMove.Bracket

/-- The type a reference points to; any other type is itself. One reference is taken off. -/
def referent (ty : List Char) : List Char :=
  let ty := trim ty
  match afterPrefix? "&mut ".toList ty with
  | some r => trim r
  | none =>
    match ty with
    | '&' :: r => trim r
    | _ => ty

/-- What follows the last `::` of a path, if it has one. -/
def afterLastColons? : List Char → Option (List Char)
  | [] => none
  | c :: s =>
    match afterLastColons? s, c, s with
    | some r, _, _ => some r
    | none, ':', ':' :: r => some r
    | none, _, _ => none

/-- The last segment of a path. -/
def lastSegment (path : List Char) : List Char := (afterLastColons? path).getD path

/-- The segments of a path, cut at `::` from the left. -/
def segments : List Char → List (List Char)
  | [] => [[]]
  | ':' :: ':' :: s => [] :: segments s
  | c :: s => (segments s).modifyHead (c :: ·)

/-- The unqualified constructor of a type, without references, path and arguments. -/
def baseName (ty : List Char) : List Char :=
  trim (lastSegment (trim ((referent ty).takeWhile (· ≠ '<'))))

/-- The type arguments of the outermost constructor. There are none if the brackets do not close. -/
def arguments (ty : List Char) : List (List Char) :=
  match (referent ty).dropWhile (· ≠ '<') with
  | [] => []
  | _ :: r =>
    match enclosed? r with
    | some p => splitOutside ',' p.1
    | none => []

/-- The number of values a return type stands for: none for unit, one for each component of a tuple,
and one for anything else. -/
def resultCount (ret : List Char) : Nat :=
  let ret := trim ret
  if ret = [] ∨ ret = ['(', ')'] then 0
  else
    match ret with
    | '(' :: r =>
      match enclosed? r with
      | some (inside, []) => (splitOutside ',' inside).length
      | _ => 1
    | _ => 1

/-- The last two segments of a call path, module and function. -/
def shortPath (path : List Char) : List Char :=
  let segs := (segments path).map trim
  "::".toList.intercalate (segs.drop (segs.length - 2))

theorem length_referent_le (ty : List Char) : (referent ty).length ≤ ty.length := by
  have ht := length_trim_le ty
  unfold referent
  dsimp only
  split
  · next r h =>
    exact Nat.le_trans (length_trim_le r) (Nat.le_trans (length_le_of_afterPrefix? h) ht)
  · split
    · next r h =>
      have : r.length + 1 = (trim ty).length := by rw [h]; rfl
      have := length_trim_le r
      omega
    · exact ht

/-- An argument is shorter than the type it stands in. -/
theorem length_lt_of_mem_arguments {ty a : List Char} (h : a ∈ arguments ty) :
    a.length < ty.length := by
  have hs := length_referent_le ty
  have hd := (List.dropWhile_suffix (· ≠ '<') (l := referent ty)).length_le
  unfold arguments at h
  split at h
  · simp at h
  · next c r hr =>
    split at h
    · next p hp =>
      have := length_of_mem_splitOutside h
      have := length_of_splitAtClose hp
      rw [hr] at hd
      simp only [List.length_cons] at hd
      omega
    · simp at h

end PseudoMove.TypeText
