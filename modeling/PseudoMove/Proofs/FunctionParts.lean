import PseudoMove.Proofs.LineByLine
import PseudoMove.Proofs.LineTexts
import PseudoMove.Proofs.StructLines

/-!
# The lines that functions are made of

Every line of a listing is part of at most one function: its header, if it can be read as one, or
else a line of its body.  The functions found, written out part by part, are a subsequence of the
lines (`parts_read`), in the order of the text.  So a function has no more body lines than the text
has lines, and its texts are no longer than the text.

* `parts_readLine`, `parts_foundFrom` — one line, and lines up to the end of the listing;
* `length_bodyLines_le`, `length_le_of_mem_bodyLines`, `length_returnType_le` — the sizes of a
  function.
-/

namespace PseudoMove

open Text PseudoMove.Bracket

/-- A part of a function in a listing. -/
inductive FunctionPart where
  | header (h : FunctionHeader)
  | line (text : String)
deriving DecidableEq, Repr

/-- The parts of a declaration, in order. Only functions have any. -/
def Declaration.parts : Declaration → List FunctionPart
  | .function f => .header f.toFunctionHeader :: f.bodyLines.map .line
  | _ => []

/-- The parts of the function that a scope is in. -/
def Scope.parts : Scope → List FunctionPart
  | .inFunction block body _ _ => .header block.toFunctionHeader :: body.reverse.map .line
  | _ => []

/-- The parts that a reading found or goes on with. -/
def Reading.parts (r : Reading) : List FunctionPart :=
  r.found.flatMap Declaration.parts ++ r.scope.parts

namespace Listing

/-- The part that a line may be. -/
def partOf (l : List Char) : FunctionPart :=
  match functionHeader? l with
  | some f => .header f.toFunctionHeader
  | none => .line (String.ofList l)

/-! ## Headers -/

theorem bodyLines_of_functionHeader? {l : List Char} {f : FunctionListing}
    (h : functionHeader? l = some f) :
    f.bodyLines = [] := by
  simp only [functionHeader?, bind, Option.bind_eq_some_iff] at h
  obtain ⟨⟨modifiers, name, s⟩, -, h⟩ := h
  split at h
  · simp at h
  · simp only [Option.bind_eq_some_iff] at h
    obtain ⟨p, -, s₁, -, q, -, h⟩ := h
    rw [← Option.some.inj h]

theorem opensBlock_of_functionHeader? {l : List Char} {f : FunctionListing}
    (h : functionHeader? l = some f) :
    opensBlock l = true := by
  simp only [functionHeader?, bind, Option.bind_eq_some_iff] at h
  obtain ⟨p, hp, -⟩ := h
  simp [opensBlock, hp]

/-- A line that opens no block can only be part of a body. -/
theorem partOf_of_not_opensBlock {l : List Char} (h : ¬ opensBlock l = true) :
    partOf l = .line (String.ofList l) := by
  unfold partOf
  split
  · next hf => exact absurd (opensBlock_of_functionHeader? hf) h
  · rfl

theorem isSuffix_of_modifier? {s r : List Char} (h : modifier? s = some r) : r <:+ s := by
  rcases Option.or_eq_some_iff.1 h with h | ⟨-, h⟩
  · simp only [scopedModifier?, scope?, bind, Option.bind_eq_some_iff] at h
    obtain ⟨a, ha, b, ⟨d, hd, e, he, hb⟩, h⟩ := h
    have hword : e <:+ trimStart d := by
      rcases Option.or_eq_some_iff.1 he with he | ⟨-, he⟩ <;> exact isSuffix_of_afterPrefix? he
    have hscope : b <:+ a :=
      (isSuffix_of_mark? hb).trans
        (hword.trans ((isSuffix_trimStart d).trans (isSuffix_of_mark? hd)))
    exact (isSuffix_of_keyword? h).trans (hscope.trans (isSuffix_of_afterPrefix? ha))
  · obtain ⟨w, -, h⟩ := List.exists_of_findSome?_eq_some h
    exact isSuffix_of_keyword? h

theorem isSuffix_of_mem_afterModifiers {s r : List Char} (h : r ∈ afterModifiers s) : r <:+ s := by
  induction s using afterModifiers.induct with
  | case1 s hnone =>
    rw [afterModifiers_of_none hnone] at h
    exact absurd h List.not_mem_nil
  | case2 s q hq ih =>
    rw [afterModifiers_of_some hq] at h
    rcases List.mem_cons.1 h with rfl | h
    · exact isSuffix_of_modifier? hq
    · exact (ih h).trans (isSuffix_of_modifier? hq)

theorem isSuffix_of_functionStart? {l : List Char} {r : List Char × List Char × List Char}
    (h : functionStart? l = some r) : r.2.2 <:+ l := by
  have hfun : ∀ {s : List Char} {p : List Char × List Char},
      (keyword? "fun".toList s).bind name? = some p → p.2 <:+ s := by
    intro s p h
    obtain ⟨q, hq, hp⟩ := Option.bind_eq_some_iff.1 h
    exact (isSuffix_of_name? hp).trans (isSuffix_of_keyword? hq)
  refine List.IsSuffix.trans ?_ (isSuffix_trimStart l)
  rcases Option.or_eq_some_iff.1 h with h | ⟨-, h⟩
  · obtain ⟨q, hq, h⟩ := List.exists_of_findSome?_eq_some h
    obtain ⟨p, hp, rfl⟩ := Option.map_eq_some_iff.1 h
    have hname : p.2 <:+ q := by
      rcases Option.or_eq_some_iff.1 hp with hp | ⟨-, hp⟩
      · exact hfun hp
      · exact isSuffix_of_name? hp
    exact hname.trans (isSuffix_of_mem_afterModifiers (List.mem_reverse.1 hq))
  · obtain ⟨p, hp, rfl⟩ := Option.map_eq_some_iff.1 h
    exact hfun hp

theorem isInfix_returnType (s : List Char) : returnType s <:+: s := by
  have hbefore : ∀ pat s : List Char, before pat s <+: s := by
    intro pat s
    induction s with
    | nil => exact List.nil_prefix
    | cons c s ih =>
      unfold before
      split
      · exact List.nil_prefix
      · exact (List.prefix_cons_inj c).2 ih
  unfold returnType
  split
  · next ret h =>
    have hret : ret <:+: s := by
      refine (List.suffix_cons ':' ret).isInfix.trans ?_
      rw [← h]
      exact (isInfix_trim _).trans ((isPrefix_dropEndWhile _ _).isInfix.trans (isInfix_trim s))
    exact (isInfix_trim _).trans ((hbefore _ ret).isInfix.trans hret)
  · exact List.nil_infix

/-- The return type of a function is part of its header. -/
theorem isInfix_of_functionHeader? {l : List Char} {f : FunctionListing}
    (h : functionHeader? l = some f) :
    f.returnType.toList <:+: l := by
  simp only [functionHeader?, bind, Option.bind_eq_some_iff] at h
  obtain ⟨⟨modifiers, name, s⟩, hstart, h⟩ := h
  split at h
  · simp at h
  · simp only [Option.bind_eq_some_iff] at h
    obtain ⟨⟨params, s₁⟩, hparams, s₂, hs₂, ⟨inside, s₃⟩, hs₃, h⟩ := h
    rw [← Option.some.inj h, String.toList_ofList]
    have h₁ : s₁ <:+ s := by
      unfold typeParameters? at hparams
      split at hparams
      · next r hr =>
        obtain ⟨p, hp, e⟩ := Option.map_eq_some_iff.1 hparams
        obtain ⟨-, rfl⟩ := Prod.mk.inj e
        refine (isSuffix_trimStart p.2).trans ((parts_of_splitAtClose hp).2.trans ?_)
        exact (List.suffix_cons '<' r).trans (hr ▸ isSuffix_trimStart s)
      · obtain ⟨-, rfl⟩ := Prod.mk.inj (Option.some.inj hparams)
        exact isSuffix_trimStart s
    have h₃ : s₃ <:+ s₂ := (parts_of_splitAtClose hs₃).2
    have hline : s₃ <:+ l :=
      h₃.trans ((isSuffix_of_afterPrefix? hs₂).trans (h₁.trans (isSuffix_of_functionStart? hstart)))
    exact (isInfix_returnType s₃).trans hline.isInfix

/-! ## One line -/

theorem parts_readFunctionLine (l : List Char) : (readFunctionLine l).parts.Sublist [partOf l] := by
  unfold readFunctionLine
  dsimp only
  split
  · exact List.nil_sublist _
  · next f hf =>
    have hpart : partOf l = .header f.toFunctionHeader := by
      unfold partOf
      rw [hf]
    rw [hpart]
    split
    · simp [Reading.parts, Declaration.parts, Scope.parts, bodyLines_of_functionHeader? hf]
    · simp [Reading.parts, Scope.parts]

theorem parts_readOutside (l : List Char) : (readOutside l).parts.Sublist [partOf l] := by
  have hfun : ((if (functionStart? l).isSome then readFunctionLine l else { scope := .outside }) :
      Reading).parts.Sublist [partOf l] := by
    split
    · exact parts_readFunctionLine l
    · exact List.nil_sublist _
  unfold readOutside
  dsimp only
  split
  · exact List.nil_sublist _
  · cases moduleName? l with
    | some name => exact List.nil_sublist _
    | none =>
      cases useDecl? l with
      | some d => exact List.nil_sublist _
      | none =>
        cases constDecl? l with
        | some d => exact List.nil_sublist _
        | none =>
          cases structHeader? l with
          | none => exact hfun
          | some decl =>
            dsimp only
            split <;> exact List.nil_sublist _

theorem parts_readInStruct (decl : StructDecl) (depth : Int) (opened : Bool) (l : List Char) :
    (readInStruct decl depth opened l).parts = [] := by
  unfold readInStruct
  dsimp only
  split
  · rfl
  · rfl

/-- What is kept of a line of a body, if anything is, is the line itself. -/
theorem parts_readInFunction (block : FunctionListing) (body : List String) (depth : Int)
    (opened : Bool) (l : List Char) :
    (readInFunction block body depth opened l).parts.Sublist
      ((Scope.inFunction block body depth opened).parts ++ [.line (String.ofList l)]) := by
  have hkept : ∀ d o, (Reading.parts { scope := .inFunction block (String.ofList l :: body) d o }) =
      (Scope.inFunction block body depth opened).parts ++ [.line (String.ofList l)] := by
    intro d o
    simp [Reading.parts, Scope.parts]
  unfold readInFunction
  dsimp only
  split
  · rw [hkept]
  · split
    · simp [Reading.parts, Scope.parts, Declaration.parts, finished]
    · split
      · simp [Reading.parts, Scope.parts]
      · rw [hkept]

/-- **One line adds at most one part**, after all others. -/
theorem parts_readLine (s : Scope) (l : List Char) :
    (readLine s l).parts.Sublist (s.parts ++ [partOf l]) := by
  cases s with
  | outside => exact parts_readOutside l
  | inStruct decl depth opened =>
    unfold readLine
    dsimp only
    split
    · exact parts_readOutside l
    · rw [parts_readInStruct]
      exact List.nil_sublist _
  | inFunction block body depth opened =>
    unfold readLine
    dsimp only
    split
    · have hparts : (Declaration.function (finished block body)).parts =
          (Scope.inFunction block body depth opened).parts := rfl
      rw [Reading.parts, List.flatMap_cons, hparts, List.append_assoc]
      exact (parts_readOutside l).append_left _
    · next hopens =>
      rw [partOf_of_not_opensBlock hopens]
      exact parts_readInFunction block body depth opened l

theorem parts_readEnd (s : Scope) : (readEnd s).parts = s.parts := by
  cases s with
  | inFunction block body depth opened =>
    simp [readEnd, Reading.parts, Declaration.parts, Scope.parts, finished]
  | _ => rfl

/-! ## All lines -/

theorem parts_foundFrom (s : Scope) (ls : List (List Char)) :
    ((foundFrom s ls).flatMap Declaration.parts).Sublist (s.parts ++ ls.map partOf) := by
  induction ls generalizing s with
  | nil =>
    have := parts_readEnd s
    rw [Reading.parts] at this
    rw [List.map_nil, List.append_nil, ← this]
    exact List.sublist_append_left _ _
  | cons l ls ih =>
    rw [foundFrom_cons, List.flatMap_append, List.map_cons, ← List.singleton_append,
      ← List.append_assoc]
    refine ((ih (readLine s l).scope).append_left _).trans ?_
    rw [← List.append_assoc]
    exact (parts_readLine s l).append_right _

/-- **The functions of a listing are made of its lines**, each used at most once and all in their
order. -/
theorem parts_read (text : String) :
    ((Listing.read text).functions.flatMap fun f => (Declaration.function f).parts).Sublist
      ((lines text.toList).map partOf) := by
  have hfunctions : ∀ ds : List Declaration,
      (ofDeclarations ds).functions.flatMap (fun f => (Declaration.function f).parts) =
        ds.flatMap Declaration.parts := by
    intro ds
    induction ds with
    | nil => rfl
    | cons d ds ih => cases d <;> simpa [ofDeclarations, Declaration.parts] using ih
  rw [Listing.read, hfunctions, declarations_eq]
  exact parts_foundFrom .outside _

/-! ## One function -/

section

variable {text : String} {f : FunctionListing} (hf : f ∈ (Listing.read text).functions)
include hf

theorem parts_of_mem_functions :
    ((Declaration.function f).parts).Sublist ((lines text.toList).map partOf) := by
  have h := (List.singleton_sublist.2 hf).flatMap fun f => (Declaration.function f).parts
  rw [List.flatMap_singleton] at h
  exact h.trans (parts_read text)

theorem exists_functionHeader? :
    ∃ l ∈ lines text.toList, ∃ b, functionHeader? l = some b ∧
      b.toFunctionHeader = f.toFunctionHeader := by
  have hmem : FunctionPart.header f.toFunctionHeader ∈ (lines text.toList).map partOf :=
    (parts_of_mem_functions hf).subset List.mem_cons_self
  obtain ⟨l, hl, h⟩ := List.mem_map.1 hmem
  refine ⟨l, hl, ?_⟩
  unfold partOf at h
  split at h
  · next b hb => exact ⟨b, hb, FunctionPart.header.inj h⟩
  · simp at h

theorem isInfix_returnType_of_mem : f.returnType.toList <:+: text.toList := by
  obtain ⟨l, hl, b, hb, e⟩ := exists_functionHeader? hf
  rw [← congrArg FunctionHeader.returnType e]
  exact (isInfix_of_functionHeader? hb).trans (isInfix_of_mem_lines hl)

/-- A function has fewer body lines than the text has lines, one of which is its header. -/
theorem length_bodyLines_lt : f.bodyLines.length < text.toList.length := by
  have h := (parts_of_mem_functions hf).length_le
  have hlines := length_lines_le text.toList
  simp only [Declaration.parts, List.length_cons, List.length_map] at h
  omega

theorem isInfix_of_mem_bodyLines {l : String} (hl : l ∈ f.bodyLines) :
    l.toList <:+: text.toList := by
  have hmem : FunctionPart.line l ∈ (lines text.toList).map partOf :=
    (parts_of_mem_functions hf).subset (List.mem_cons_of_mem _ (List.mem_map_of_mem hl))
  obtain ⟨s, hs, h⟩ := List.mem_map.1 hmem
  unfold partOf at h
  split at h
  · simp at h
  · rw [← FunctionPart.line.inj h, String.toList_ofList]
    exact isInfix_of_mem_lines hs

end

end Listing

end PseudoMove
