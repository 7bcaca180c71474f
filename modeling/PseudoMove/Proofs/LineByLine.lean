import PseudoMove.Listing.Pass

/-!
# A listing read line by line

`foundFrom` says what some lines and the end of the listing declare, read from a scope on; a listing
is what its lines declare from outside all blocks (`declarations_eq`).  A header that opens a block
is read outside all blocks, whatever came before it (`foundFrom_cons_of_opensBlock`), so a listing
falls apart at every such header: `read_append`.
-/

namespace PseudoMove.Listing

open Text

/-- What lines declare from a scope on, with the end of the listing after them. -/
def foundFrom (s : Scope) : List (List Char) → List Declaration
  | [] => (readEnd s).found
  | l :: ls => (readLine s l).found ++ foundFrom (readLine s l).scope ls

theorem foundFrom_cons (s : Scope) (l : List Char) (ls : List (List Char)) :
    foundFrom s (l :: ls) = (readLine s l).found ++ foundFrom (readLine s l).scope ls := rfl

/-- A pass finds what its lines declare, after what it has found. -/
theorem found_passOver (p : Pass) (ls : List (List Char)) :
    ((passOver p ls).add (readEnd (passOver p ls).scope)).found.reverse =
      p.found.reverse ++ foundFrom p.scope ls := by
  induction ls generalizing p with
  | nil =>
    show ((readEnd p.scope).found.reverse ++ p.found).reverse =
      p.found.reverse ++ (readEnd p.scope).found
    rw [List.reverse_append, List.reverse_reverse]
  | cons l ls ih =>
    have hfound : (p.add (readLine p.scope l)).found.reverse =
        p.found.reverse ++ (readLine p.scope l).found := by
      show ((readLine p.scope l).found.reverse ++ p.found).reverse = _
      rw [List.reverse_append, List.reverse_reverse]
    rw [foundFrom_cons, ← List.append_assoc, ← hfound]
    exact ih (p.add (readLine p.scope l))

theorem declarations_eq (text : String) :
    declarations text = foundFrom .outside (lines text.toList) := found_passOver {} _

/-! ## Headers -/

/-- A header that opens a block is read as it is outside all blocks, after the end of the block
before it. -/
theorem foundFrom_cons_of_opensBlock {l : List Char} (hl : opensBlock l = true) (s : Scope)
    (ls : List (List Char)) :
    foundFrom s (l :: ls) = (readEnd s).found ++ foundFrom .outside (l :: ls) := by
  cases s with
  | outside => rfl
  | inStruct decl depth opened =>
    rw [foundFrom_cons, readLine, if_pos hl]
    rfl
  | inFunction block body depth opened =>
    rw [foundFrom_cons, readLine, if_pos hl]
    rfl

/-- Lines are read up to a header that opens a block as if they ended there, and from it on
as if they began there. -/
theorem foundFrom_append_of_opensBlock {l : List Char} (hl : opensBlock l = true) (s : Scope)
    (as ls : List (List Char)) :
    foundFrom s (as ++ l :: ls) = foundFrom s as ++ foundFrom .outside (l :: ls) := by
  induction as generalizing s with
  | nil => exact foundFrom_cons_of_opensBlock hl s ls
  | cons a as ih => rw [List.cons_append, foundFrom_cons, foundFrom_cons, ih, List.append_assoc]

theorem opensBlock_of_heading? {l : List Char}
    (hl : heading? l = some .structHeader ∨ heading? l = some .functionHeader) :
    opensBlock l = true := by
  unfold heading? at hl
  unfold opensBlock
  by_cases hs : (structParts? l).isSome = true
  · rw [hs, Bool.true_or]
  · by_cases hf : (functionStart? l).isSome = true
    · rw [hf, Bool.or_true]
    · rw [if_neg hs, if_neg hf] at hl
      split at hl <;> simp at hl

/-! ## Two listings, one after the other -/

/-- The declarations of two listings together. The first module name counts. -/
def append (a b : Listing) : Listing where
  moduleName := a.moduleName.or b.moduleName
  uses := a.uses ++ b.uses
  constants := a.constants ++ b.constants
  structs := a.structs ++ b.structs
  functions := a.functions ++ b.functions

theorem ofDeclarations_append (ds es : List Declaration) :
    ofDeclarations (ds ++ es) = (ofDeclarations ds).append (ofDeclarations es) := by
  unfold ofDeclarations append
  simp only [List.findSome?_append, List.filterMap_append]

/-- **What is malformed affects nothing after the next header.** A text that begins with
the header of a struct or of a function is read in the same way whatever lines stand before
it, and so are these. -/
theorem read_append (a b : String) (ha : a = "" ∨ a.toList.getLast? = some '\n') {l : List Char}
    (hb : (lines b.toList).head? = some l)
    (hl : heading? l = some .structHeader ∨ heading? l = some .functionHeader) :
    read (a ++ b) = (read a).append (read b) := by
  obtain ⟨ls, hls⟩ := List.head?_eq_some_iff.1 hb
  have hlines : lines (a ++ b).toList = lines a.toList ++ l :: ls := by
    rw [String.toList_append, lines_append (ha.imp_left fun e => by rw [e]; rfl), hls]
  rw [read, read, read, ← ofDeclarations_append, declarations_eq, declarations_eq, declarations_eq,
    hlines, hls, foundFrom_append_of_opensBlock (opensBlock_of_heading? hl)]

/-- A struct that is never closed is dropped at the function after it, and takes nothing along. -/
theorem read_append_unclosed :
    let a := "module pool \x7b\nstruct Pool \x7b\n  reserve: u64,\n"
    let b := "fun reserve(): u64 \x7b\n0: Ret\n"
    read a = { moduleName := some "pool" } ∧
    read (a ++ b) =
      { moduleName := some "pool"
        functions := [{ name := "reserve", returnType := "u64", bodyLines := ["0: Ret"] }] } := by
  intro a b
  have ha : read a = { moduleName := some "pool" } := by decide +kernel
  refine ⟨ha, ?_⟩
  rw [read_append a b (.inr (by decide +kernel)) (l := "fun reserve(): u64 \x7b".toList)
    (by decide +kernel) (.inr (by decide +kernel)), ha]
  decide +kernel

end PseudoMove.Listing
