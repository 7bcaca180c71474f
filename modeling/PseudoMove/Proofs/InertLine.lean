import PseudoMove.Proofs.BracePlacement
import PseudoMove.Proofs.FunctionParts

/-!
# Lines that change nothing

A line is inert if it can be put anywhere into any listing and nothing changes in what the listing
declares (`Inert`).  Of function bodies only what they spell is compared, as an inert line may well
become one of their lines (`Agrees`).

Lines of bodies that spell nothing are left out in the essence of a scope and of a declaration, and
reading goes on from the essence of a scope as it does from the scope itself (`essence_readLine`).
So a line is inert after some lines if it is passed over in the scope that they lead to: nothing is
found, and the scope keeps its essence (`inertAfter_of_passedOver`).

* `unrecognised_inert` — a line that fits no pattern is passed over, unless it begins as a function
  header does and stands in a block, which it then ends;
* `comment_inert` — a comment is passed over outside all blocks; in a block it is if it has no
  braces, which are counted.
-/

namespace PseudoMove

open Text

/-- What a function of a listing comes to: its header, and what its body spells. -/
def FunctionListing.content (f : FunctionListing) : FunctionHeader × Body :=
  (f.toFunctionHeader, Listing.body f.bodyLines)

namespace Listing

/-- Two listings declare the same, lines in function bodies that spell nothing aside. -/
structure Agrees (a b : Listing) : Prop where
  moduleName : a.moduleName = b.moduleName
  uses : a.uses = b.uses
  constants : a.constants = b.constants
  structs : a.structs = b.structs
  functions : a.functions.map FunctionListing.content = b.functions.map FunctionListing.content

/-- In every text that begins with the lines `before`, the line `l` can be put behind them. -/
def InertAfter (before : List (List Char)) (l : List Char) : Prop :=
  ∀ (text text' : String) (after : List (List Char)), lines text.toList = before ++ after →
    lines text'.toList = before ++ l :: after → (read text').Agrees (read text)

/-- The line `l` can be put anywhere into any text. -/
def Inert (l : List Char) : Prop := ∀ before, InertAfter before l

/-! ## Essences -/

/-- Whether a line of a body spells something. -/
def carries (l : String) : Bool := bodyLine l.toList ≠ .other

theorem body_filter_carries (ls : List String) : body (ls.filter carries) = body ls := by
  have hkept : ∀ {α : Type} (g : BodyLine → Option α), g .other = none →
      ((ls.filter carries).map fun l => bodyLine l.toList).filterMap g =
        (ls.map fun l => bodyLine l.toList).filterMap g := by
    intro α g hg
    rw [List.filterMap_map, List.filterMap_map, List.filterMap_filter]
    refine List.filterMap_congr fun l _ => ?_
    by_cases h : bodyLine l.toList = .other
    · simp [carries, h, hg]
    · simp [carries, h]
  unfold body Body.ofLines
  rw [hkept _ rfl, hkept _ rfl]

end Listing

/-- A function with the body lines that spell something. -/
def FunctionListing.essence (f : FunctionListing) : FunctionListing :=
  { f with bodyLines := f.bodyLines.filter Listing.carries }

/-- A declaration with the body lines that spell something. -/
def Declaration.essence : Declaration → Declaration
  | .function f => .function f.essence
  | d => d

/-- A scope with the body lines that spell something. -/
def Scope.essence : Scope → Scope
  | .inFunction block body depth opened =>
    .inFunction block (body.filter Listing.carries) depth opened
  | s => s

/-- A listing with the body lines that spell something. -/
def Listing.essence (a : Listing) : Listing :=
  { a with functions := a.functions.map FunctionListing.essence }

namespace Listing

theorem content_essence (f : FunctionListing) : f.essence.content = f.content :=
  congrArg (Prod.mk f.toFunctionHeader) (body_filter_carries f.bodyLines)

theorem agrees_of_essence {ds es : List Declaration}
    (h : ds.map Declaration.essence = es.map Declaration.essence) :
    (ofDeclarations ds).Agrees (ofDeclarations es) := by
  have hessence : ∀ ds : List Declaration,
      ofDeclarations (ds.map Declaration.essence) = (ofDeclarations ds).essence := by
    intro ds
    induction ds with
    | nil => rfl
    | cons d ds ih =>
      have hcons : ∀ (d : Declaration) ds, ofDeclarations (d :: ds) =
          (ofDeclarations [d]).append (ofDeclarations ds) :=
        fun d ds => ofDeclarations_append [d] ds
      rw [List.map_cons, hcons, ih, hcons d ds]
      cases d <;> rfl
  have hcontent : ∀ fs : List FunctionListing,
      (fs.map FunctionListing.essence).map FunctionListing.content =
        fs.map FunctionListing.content := by
    intro fs
    rw [List.map_map]
    exact List.map_congr_left fun f _ => content_essence f
  have hsame := (hessence ds).symm.trans ((congrArg ofDeclarations h).trans (hessence es))
  have hfunctions := congrArg (fun a => a.functions.map FunctionListing.content) hsame
  refine ⟨(congrArg Listing.moduleName hsame :), (congrArg Listing.uses hsame :),
    (congrArg Listing.constants hsame :), (congrArg Listing.structs hsame :), ?_⟩
  exact (hcontent _).symm.trans (hfunctions.trans (hcontent _))

theorem essence_finished (block : FunctionListing) (body : List String) :
    (Declaration.function (finished block (body.filter carries))).essence =
      (Declaration.function (finished block body)).essence := by
  simp [Declaration.essence, FunctionListing.essence, finished, List.filter_reverse]

/-- **A line is read from the essence of a scope as from the scope itself.** -/
theorem essence_readLine (s : Scope) (l : List Char) :
    (readLine s.essence l).found.map Declaration.essence =
      (readLine s l).found.map Declaration.essence ∧
      (readLine s.essence l).scope.essence = (readLine s l).scope.essence := by
  cases s with
  | outside => exact ⟨rfl, rfl⟩
  | inStruct decl depth opened => exact ⟨rfl, rfl⟩
  | inFunction block body depth opened =>
    have hfinished := essence_finished block body
    by_cases hopens : opensBlock l = true
    · simp [Scope.essence, readLine, hopens, hfinished]
    · simp only [Scope.essence, readLine, if_neg hopens]
      unfold readInFunction
      dsimp only
      split
      · simp [List.filter_cons]
      · split
        · simp [hfinished]
        · split
          · simp
          · simp [List.filter_cons]

theorem essence_readEnd (s : Scope) :
    (readEnd s.essence).found.map Declaration.essence =
      (readEnd s).found.map Declaration.essence := by
  cases s with
  | inFunction block body depth opened =>
    exact congrArg (fun d => [d]) (essence_finished block body)
  | _ => rfl

theorem essence_foundFrom (s : Scope) (ls : List (List Char)) :
    (foundFrom s.essence ls).map Declaration.essence =
      (foundFrom s ls).map Declaration.essence := by
  induction ls generalizing s with
  | nil => exact essence_readEnd s
  | cons l ls ih =>
    obtain ⟨hfound, hscope⟩ := essence_readLine s l
    rw [foundFrom_cons, foundFrom_cons, List.map_append, List.map_append, hfound, ← ih, hscope, ih]

/-! ## Lines that are passed over -/

/-- The scope that lines lead to from a scope on. -/
def scopeAfter (s : Scope) (ls : List (List Char)) : Scope :=
  ls.foldl (fun s l => (readLine s l).scope) s

/-- In the scope `s`, reading the line finds nothing and changes nothing that counts. -/
def PassedOver (s : Scope) (l : List Char) : Prop :=
  (readLine s l).found = [] ∧ (readLine s l).scope.essence = s.essence

/-- A line that is passed over can be put where it is. -/
theorem foundFrom_insert {l : List Char} (s : Scope) (before after : List (List Char))
    (h : PassedOver (scopeAfter s before) l) :
    (foundFrom s (before ++ l :: after)).map Declaration.essence =
      (foundFrom s (before ++ after)).map Declaration.essence := by
  induction before generalizing s with
  | nil =>
    obtain ⟨hfound, hscope⟩ : (readLine s l).found = [] ∧
        (readLine s l).scope.essence = s.essence := h
    rw [List.nil_append, List.nil_append, foundFrom_cons, hfound, List.nil_append,
      ← essence_foundFrom, hscope]
    exact essence_foundFrom s after
  | cons b before ih =>
    rw [List.cons_append, List.cons_append, foundFrom_cons, foundFrom_cons, List.map_append,
      List.map_append, ih _ h]

/-- A block that goes on is not complete. -/
def Scope.GoesOn : Scope → Prop
  | .inFunction _ _ depth opened => isClosed depth opened = false
  | _ => True

theorem goesOn_readOutside (l : List Char) : Scope.GoesOn (readOutside l).scope := by
  have hfunction : Scope.GoesOn (readFunctionLine l).scope := by
    unfold readFunctionLine
    dsimp only
    split
    · trivial
    · split
      · trivial
      · next h => exact (Bool.or_eq_false_iff.1 (Bool.eq_false_iff.2 h)).1
  unfold readOutside
  dsimp only
  split
  · trivial
  · cases moduleName? l with
    | some name => trivial
    | none =>
      cases useDecl? l with
      | some d => trivial
      | none =>
        cases constDecl? l with
        | some d => trivial
        | none =>
          cases structHeader? l with
          | some d =>
            dsimp only
            split <;> trivial
          | none =>
            dsimp only
            split
            · exact hfunction
            · trivial

theorem goesOn_readLine {s : Scope} (hs : Scope.GoesOn s) (l : List Char) :
    Scope.GoesOn (readLine s l).scope := by
  cases s with
  | outside => exact goesOn_readOutside l
  | inStruct decl depth opened =>
    unfold readLine
    dsimp only
    split
    · exact goesOn_readOutside l
    · unfold readInStruct
      dsimp only
      split <;> trivial
  | inFunction block body depth opened =>
    unfold readLine
    dsimp only
    split
    · exact goesOn_readOutside l
    · unfold readInFunction
      dsimp only
      split
      · exact hs
      · split
        · trivial
        · next h => split <;> exact Bool.eq_false_iff.2 h

theorem goesOn_scopeAfter {s : Scope} (hs : Scope.GoesOn s) (ls : List (List Char)) :
    Scope.GoesOn (scopeAfter s ls) := by
  induction ls generalizing s with
  | nil => exact hs
  | cons l ls ih => exact ih (goesOn_readLine hs l)

/-- A line is inert after some lines if it is passed over in the scope that they lead to. -/
theorem inertAfter_of_passedOver {before : List (List Char)} {l : List Char}
    (h : Scope.GoesOn (scopeAfter .outside before) → PassedOver (scopeAfter .outside before) l) :
    InertAfter before l := by
  have houtside : Scope.GoesOn .outside := trivial
  have hpassed := h (goesOn_scopeAfter houtside before)
  intro text text' after htext htext'
  rw [read, read, declarations_eq, declarations_eq, htext, htext']
  exact agrees_of_essence (foundFrom_insert .outside before after hpassed)

section

variable {l : List Char} (hopens : opensBlock l = false) (hbalance : braceBalance l = 0)
include hopens hbalance

theorem passedOver_inStruct (hfield : field? l = none) (decl : StructDecl) (depth : Int)
    (opened : Bool) :
    PassedOver (.inStruct decl depth opened) l := by
  rw [PassedOver, readLine_balanced hopens hbalance, hfield]
  simp

/-- In a function, a line that spells nothing may be added to the body. -/
theorem passedOver_inFunction (hother : bodyLine l = .other) (block : FunctionListing)
    (body : List String) {depth : Int} {opened : Bool} (hs : isClosed depth opened = false)
    (hl : opened = true ∨ '{' ∉ l) : PassedOver (.inFunction block body depth opened) l := by
  have hadded : ∀ b : List String, (String.ofList l :: b).filter carries = b.filter carries := by
    intro b
    simp [carries, hother]
  have hopened : (opened || l.contains '{') = opened := by
    rcases hl with rfl | hl
    · rfl
    · simp [hl]
  rw [PassedOver, readLine, if_neg (by simp [hopens])]
  unfold readInFunction
  dsimp only
  rw [hbalance, hopened, Int.add_zero, hs]
  split
  · exact ⟨rfl, congrArg (Scope.inFunction block · depth opened) (hadded body)⟩
  · rw [if_neg (by decide)]
    split
    · exact ⟨rfl, rfl⟩
    · exact ⟨rfl, congrArg (Scope.inFunction block · depth opened) (hadded body)⟩

end

/-- An inert line can be put between any lines. -/
theorem Inert.agrees {l : List Char} (h : Inert l) (hl : IsLine l) (before after : List (List Char))
    (hlines : ∀ k ∈ before ++ after, IsLine k) :
    (ofDeclarations (foundFrom .outside (before ++ l :: after))).Agrees
      (ofDeclarations (foundFrom .outside (before ++ after))) := by
  have hread : ∀ ls : List (List Char), (∀ k ∈ ls, IsLine k) →
      lines (String.ofList (ls.flatMap (· ++ ['\n']))).toList = ls := by
    intro ls hls
    rw [String.toList_ofList, StructLayout.lines_flatMap hls]
  have hinserted : ∀ k ∈ before ++ l :: after, IsLine k := by
    simp only [List.mem_append, List.mem_cons] at hlines ⊢
    rintro k (hk | rfl | hk)
    · exact hlines k (.inl hk)
    · exact hl
    · exact hlines k (.inr hk)
  have := h before _ _ after (hread _ hlines) (hread _ hinserted)
  rwa [read, read, declarations_eq, declarations_eq, hread _ hlines, hread _ hinserted] at this

/-- An inert line can be written between any two parts of a text, the first of which ends with a
newline. -/
theorem Inert.read_insert {l : List Char} (h : Inert l) (hl : IsLine l) {a : String}
    (ha : a = "" ∨ a.toList.getLast? = some '\n') (b : String) :
    (read (a ++ (String.ofList l ++ "\n" ++ b))).Agrees (read (a ++ b)) := by
  have ha : a.toList = [] ∨ a.toList.getLast? = some '\n' := ha.imp_left fun e => by rw [e]; rfl
  have hinserted : (String.ofList l ++ "\n" ++ b).toList = l ++ '\n' :: b.toList := by simp
  refine h (lines a.toList) _ _ (lines b.toList) ?_ ?_
  · rw [String.toList_append, lines_append ha]
  · rw [String.toList_append, hinserted, lines_append ha, lines_append_newline hl.1,
      dropReturn, if_neg hl.2]

/-- The header of a struct. -/
def flagHeader : List Char := "struct Flag has drop \x7b".toList

/-- Its only field and its end. -/
def flagRest : List (List Char) := ["  set: bool".toList, "\x7d".toList]

theorem found_flagHeader : (readLine .outside flagHeader).found = [] := by decide +kernel

theorem scope_flagHeader :
    (readLine .outside flagHeader).scope =
      .inStruct { name := "Flag", abilities := [.drop] } 1 true := by
  decide +kernel

/-- In a struct that is deeper than its field, one closing brace ends nothing. -/
theorem foundFrom_flagRest_of_deep {depth : Int} (hdepth : 1 < depth) (d : StructDecl) :
    foundFrom (.inStruct d depth true) flagRest = [] := by
  have hfield : readLine (.inStruct d depth true) "  set: bool".toList =
      { scope := .inStruct { d with fields := d.fields ++ [⟨"set", "bool"⟩] } depth true } := by
    rw [readLine_balanced (by decide +kernel) (by decide +kernel),
      show field? "  set: bool".toList = some ⟨"set", "bool"⟩ by decide +kernel]
    rfl
  have hend : ∀ d : StructDecl, readLine (.inStruct d depth true) "\x7d".toList =
      { scope := .inStruct d (depth + -1) true } := by
    intro d
    have hopen : isClosed (depth + -1) true = false := by
      simp only [isClosed, Bool.true_and, decide_eq_false_iff_not]
      omega
    rw [readLine_braced (by decide +kernel) (by decide +kernel),
      show field? (unbraced "\x7d".toList) = none by decide +kernel,
      show braceBalance "\x7d".toList = -1 by decide +kernel, Bool.true_or, hopen]
    simp
  rw [flagRest, foundFrom_cons, hfield, foundFrom_cons, hend]
  rfl

/-! ## Lines that fit no pattern -/

/-- A line that fits no pattern: it has no braces, is no declaration, no field and no line of a
body.  It may still begin as a function header does. -/
structure Unrecognised (l : List Char) : Prop where
  braces : IsBraceless l
  moduleName : moduleName? l = none
  useDecl : useDecl? l = none
  constDecl : constDecl? l = none
  structHeader : structHeader? l = none
  functionHeader : functionHeader? l = none
  field : field? l = none
  bodyLine : Listing.bodyLine l = .other

section

variable {l : List Char} (hl : Unrecognised l)
include hl

theorem Unrecognised.readOutside :
    (readOutside l).found = [] ∧ (readOutside l).scope = .outside := by
  unfold Listing.readOutside readFunctionLine
  dsimp only
  rw [hl.moduleName, hl.useDecl, hl.constDecl, hl.structHeader, hl.functionHeader]
  split
  · exact ⟨rfl, rfl⟩
  · dsimp only
    split <;> exact ⟨rfl, rfl⟩

theorem Unrecognised.opensBlock : opensBlock l = (functionStart? l).isSome := by
  have hparts : structParts? l = none := by
    have h := hl.structHeader
    simp only [structHeader?, bind, Option.bind_eq_none_iff] at h
    exact Option.eq_none_iff_forall_ne_some.2 fun p hp => by simpa using h p hp
  simp [Listing.opensBlock, hparts]

theorem Unrecognised.passedOver {s : Scope} (hs : Scope.GoesOn s)
    (h : s = .outside ∨ functionStart? l = none) :
    PassedOver s l := by
  have hopens : functionStart? l = none → Listing.opensBlock l = false := by
    intro h
    rw [hl.opensBlock, h]
    rfl
  cases s with
  | outside =>
    obtain ⟨hfound, hscope⟩ := hl.readOutside
    exact ⟨hfound, congrArg Scope.essence hscope⟩
  | inStruct decl depth opened =>
    have hstart := h.resolve_left (by simp)
    exact passedOver_inStruct (hopens hstart) hl.braces.balance hl.field decl depth opened
  | inFunction block body depth opened =>
    have hstart := h.resolve_left (by simp)
    exact passedOver_inFunction (hopens hstart) hl.braces.balance hl.bodyLine block body hs
      (.inr fun hmem => (hl.braces _ hmem).1 rfl)

end

/-- **A line that fits no pattern is passed over**, outside blocks and, if it does not begin
as a function header does, in them. A line that does begin so ends the block it stands in, so
that it is not inert. -/
theorem unrecognised_inert {l : List Char} (hl : Unrecognised l) :
    (∀ before, scopeAfter .outside before = .outside ∨ functionStart? l = none →
      InertAfter before l) ∧
      (IsLine l → (Inert l ↔ functionStart? l = none)) := by
  have hinert : ∀ before, scopeAfter .outside before = .outside ∨ functionStart? l = none →
      InertAfter before l := fun before h => inertAfter_of_passedOver fun hs => hl.passedOver hs h
  refine ⟨hinert, fun hline => ⟨fun h => ?_, fun h before => hinert before (.inr h)⟩⟩
  by_contra hstart
  have hopens : opensBlock l = true := by
    rw [hl.opensBlock]
    exact Option.isSome_iff_ne_none.2 hstart
  obtain ⟨hfound, hscope⟩ := hl.readOutside
  -- the struct is dropped at `l`, and its field is read outside
  have hinserted : foundFrom .outside (flagHeader :: l :: flagRest) = [] := by
    rw [foundFrom_cons, found_flagHeader, foundFrom_cons_of_opensBlock hopens, scope_flagHeader,
      foundFrom_cons, readLine, hfound, hscope]
    decide +kernel
  have := (h.agrees hline [flagHeader] flagRest (by decide +kernel)).structs
  rw [List.singleton_append, hinserted] at this
  revert this
  decide +kernel

theorem inert_prose :
    Unrecognised "  this is not an instruction".toList ∧
      Inert "  this is not an instruction".toList := by
  have hl : Unrecognised "  this is not an instruction".toList := by
    constructor <;> decide +kernel
  exact ⟨hl, ((unrecognised_inert hl).2 (by decide +kernel)).2 (by decide +kernel)⟩

/-- A line that begins as a function header does and is none takes a struct along, or
the body of a function. -/
theorem read_falseHeader :
    Unrecognised "public garbage without parens".toList ∧
    read "struct Flag has drop \x7b\n    set: bool\n\x7d\n" =
      { structs := [{ name := "Flag", abilities := [.drop], fields := [⟨"set", "bool"⟩] }] } ∧
    read "struct Flag has drop \x7b\npublic garbage without parens\n    set: bool\n\x7d\n" = {} ∧
    read "fun f() \x7b\npublic garbage without parens\n0: Ret\n\x7d\n" =
      { functions := [{ name := "f" }] } := by
  refine ⟨?_, by decide +kernel⟩
  constructor <;> decide +kernel

/-! ## Comments -/

/-- A comment: blanks, two slashes, and any text. -/
def IsComment (l : List Char) : Prop :=
  ∃ blanks text : List Char, blanks.all isBlank = true ∧ l = blanks ++ '/' :: '/' :: text

/-- The braces of a line do not matter in the scope. -/
def Scope.Spares (l : List Char) : Scope → Prop
  | .outside => True
  | .inStruct _ _ _ => braceBalance l = 0
  | .inFunction _ _ _ opened => braceBalance l = 0 ∧ (opened = true ∨ '{' ∉ l)

section

variable {l : List Char} (hl : IsComment l)
include hl

theorem IsComment.trimStart : ∃ text, trimStart l = '/' :: '/' :: text := by
  obtain ⟨blanks, text, hblanks, rfl⟩ := hl
  exact ⟨text, trimStart_append hblanks _⟩

theorem IsComment.unbraced : IsComment (unbraced l) := by
  obtain ⟨blanks, text, hblanks, rfl⟩ := hl
  refine ⟨unbraced blanks, unbraced text, ?_, by simp [Listing.unbraced]⟩
  exact IsEdge.unbraced fun c hc => .inl (List.all_eq_true.1 hblanks c hc)

theorem IsComment.field? : field? l = none := by
  obtain ⟨text, h⟩ := hl.trimStart
  rw [Listing.field?, h]
  rfl

theorem IsComment.opensBlock : opensBlock l = false := by
  obtain ⟨text, h⟩ := hl.trimStart
  refine opensBlock_of_none ?_ ?_ ?_
  · rw [structParts?, h]
    rfl
  · rw [h]
    rfl
  · rw [h]
    rfl

theorem IsComment.bodyLine : bodyLine l = .other := by
  obtain ⟨text, h⟩ := hl.trimStart
  have hlabel : isLabel l = false := by
    rw [isLabel, h]
    rfl
  have hdecl : slotDecl? l = none := by
    rw [slotDecl?, h]
    rfl
  have hinstruction : instruction? l = none := by
    rw [instruction?, h]
    rfl
  rw [Listing.bodyLine, hlabel, hdecl, hinstruction]
  rfl

theorem IsComment.not_startsInstruction : startsInstruction l = false := by
  obtain ⟨text, h⟩ := hl.trimStart
  rw [startsInstruction, h]
  rfl

theorem IsComment.readOutside : readOutside l = { scope := .outside } := by
  obtain ⟨text, h⟩ := hl.trimStart
  have hslash : ∀ s, trimEnd ('/' :: s) = '/' :: trimEnd s := trim_cons (c := '/') (by decide)
  have htrim : trim l = '/' :: '/' :: trimEnd text := by rw [trim, h, hslash, hslash]
  unfold Listing.readOutside
  exact if_pos (.inr (by rw [htrim]; rfl))

theorem IsComment.passedOver {s : Scope} (hs : Scope.GoesOn s) (h : Scope.Spares l s) :
    PassedOver s l := by
  cases s with
  | outside =>
    rw [PassedOver, readLine, hl.readOutside]
    exact ⟨rfl, rfl⟩
  | inStruct decl depth opened =>
    exact passedOver_inStruct hl.opensBlock h hl.field? decl depth opened
  | inFunction block body depth opened =>
    exact passedOver_inFunction hl.opensBlock h.1 hl.bodyLine block body hs h.2

/-- A comment with a brace more of one kind changes the depth of a struct it stands in. -/
theorem IsComment.not_inert_of_balance (hline : IsLine l) (hbalance : braceBalance l ≠ 0) :
    ¬ Inert l := by
  intro h
  let flag : StructDecl := { name := "Flag", abilities := [.drop] }
  have hread : readLine (.inStruct flag 1 true) l =
      if isClosed (1 + braceBalance l) true then { scope := .outside, found := [.structDecl flag] }
      else { scope := .inStruct flag (1 + braceBalance l) true } := by
    rw [readLine_braced hl.opensBlock hbalance, hl.unbraced.field?]
    rfl
  have hstructs := (h.agrees hline [flagHeader] flagRest (by decide +kernel)).structs
  rw [List.singleton_append, foundFrom_cons, found_flagHeader, scope_flagHeader, foundFrom_cons,
    hread] at hstructs
  by_cases hclosed : isClosed (1 + braceBalance l) true = true
  · -- the comment ends the struct before its field
    rw [if_pos hclosed] at hstructs
    revert hstructs
    decide +kernel
  · -- the struct goes on behind its end
    have hdeep : 1 < 1 + braceBalance l := by
      simp only [isClosed, Bool.true_and, decide_eq_true_eq] at hclosed
      omega
    rw [if_neg hclosed] at hstructs
    generalize 1 + braceBalance l = depth at hstructs hdeep
    rw [foundFrom_flagRest_of_deep hdeep] at hstructs
    have hstructs : [] = (ofDeclarations (foundFrom .outside ([flagHeader] ++ flagRest))).structs :=
      hstructs
    revert hstructs
    decide +kernel

/-- A comment with as many opening as closing braces ends a function that waits for its first
brace. -/
theorem IsComment.not_inert_of_brace (hline : IsLine l) (hbalance : braceBalance l = 0)
    (hbrace : '{' ∈ l) : ¬ Inert l := by
  intro h
  have hread : (readLine (.inFunction { name := "f" } [] 0 false) l).found =
      [.function { name := "f" }] ∧
      (readLine (.inFunction { name := "f" } [] 0 false) l).scope = .outside := by
    rw [readLine, if_neg (by simp [hl.opensBlock])]
    unfold readInFunction
    rw [hl.not_startsInstruction]
    simp [hbalance, hbrace, isClosed, finished]
  have hfound : (readLine .outside "fun f()".toList).found = [] := by decide +kernel
  have hscope : (readLine .outside "fun f()".toList).scope =
      .inFunction { name := "f" } [] 0 false := by decide +kernel
  have hfunctions :=
    (h.agrees hline ["fun f()".toList] ["\x7b".toList, "0: Ret".toList, "\x7d".toList]
      (by decide +kernel)).functions
  rw [List.singleton_append, foundFrom_cons, hfound, hscope, foundFrom_cons, hread.1,
    hread.2] at hfunctions
  revert hfunctions
  decide +kernel

/-- **A comment is passed over** outside blocks, and in a block if its braces do not matter there.
No comment with braces is inert. -/
theorem comment_inert :
    (∀ before, Scope.Spares l (scopeAfter .outside before) → InertAfter before l) ∧
      (IsLine l → (Inert l ↔ IsBraceless l)) := by
  have hinert : ∀ before, Scope.Spares l (scopeAfter .outside before) → InertAfter before l :=
    fun before h => inertAfter_of_passedOver fun hs => hl.passedOver hs h
  refine ⟨hinert, fun hline => ⟨fun h => ?_, fun h before => hinert before ?_⟩⟩
  · by_contra hbraces
    by_cases hbalance : braceBalance l = 0
    · refine hl.not_inert_of_brace hline hbalance ?_ h
      by_contra hopening
      have hcount : l.count '{' = 0 := List.count_eq_zero.2 hopening
      have hclosing : l.count '}' = 0 := by
        rw [braceBalance, hcount] at hbalance
        omega
      exact hbraces fun c hc =>
        ⟨fun e => hopening (e ▸ hc), fun e => List.count_eq_zero.1 hclosing (e ▸ hc)⟩
    · exact hl.not_inert_of_balance hline hbalance h
  · cases scopeAfter .outside before with
    | outside => trivial
    | inStruct decl depth opened => exact h.balance
    | inFunction block body depth opened => exact ⟨h.balance, .inr fun hmem => (h _ hmem).1 rfl⟩

end

theorem inert_note :
    IsComment "\t// value: u64 of the pool, see note 3:".toList ∧
      IsLine "\t// value: u64 of the pool, see note 3:".toList ∧
      Inert "\t// value: u64 of the pool, see note 3:".toList := by
  have hl : IsComment "\t// value: u64 of the pool, see note 3:".toList := ⟨['\t'], _, rfl, rfl⟩
  have hline : IsLine "\t// value: u64 of the pool, see note 3:".toList := by decide +kernel
  exact ⟨hl, hline, ((comment_inert hl).2 hline).2 (by decide +kernel)⟩

/-- A brace in a comment ends a struct before its field, or a function before its body. -/
theorem read_bracedComment :
    IsComment "// \x7d".toList ∧
    read "struct Flag has drop \x7b\n    set: bool\n\x7d\n" =
      { structs := [{ name := "Flag", abilities := [.drop], fields := [⟨"set", "bool"⟩] }] } ∧
    read "struct Flag has drop \x7b\n// \x7d\n    set: bool\n\x7d\n" =
      { structs := [{ name := "Flag", abilities := [.drop] }] } ∧
    read "fun f() \x7b\n// \x7d\n0: Ret\n\x7d\n" = { functions := [{ name := "f" }] } :=
  ⟨⟨[], _, rfl, rfl⟩, by decide +kernel⟩

end Listing

end PseudoMove
