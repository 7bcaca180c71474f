import PseudoMove.Decompilation
import PseudoMove.Proofs.InertLine
import PseudoMove.Proofs.Padding
import PseudoMove.Proofs.Recovery

/-!
# Indentation

Lines may be indented, and spaces and tabs may follow a brace, a semicolon, a comma or a closing
parenthesis at the end of a line (`Pads`).  A padded line is read as the line itself, but for a line
in a function, which is kept as it stands; there it spells the same.  So two texts whose lines
differ in nothing else lead to scopes and declarations that are alike line by line
(`alike_readLine`, `alike_foundFrom`).

Decompilation looks at what the functions of a listing spell and at nothing else of their lines:
from listings that agree comes the same result, whether it is a module or a failure
(`ofText?_of_agrees`).  So nothing depends on how a text is indented (`ofText?_padded`).
-/

namespace PseudoMove

open Text

namespace Listing

/-! ## Padded lines -/

/-- The line `l'` is `l` with spaces and tabs in front, and behind it if it ends with a closing
mark. -/
def Pads (l l' : List Char) : Prop :=
  ∃ pre post, IsPadding pre ∧ IsPadding post ∧ l' = pre ++ (l ++ post) ∧
    (post ≠ [] → ∃ c ∈ l.getLast?, c ∈ closingMarks)

section

variable {l l' : List Char} (h : Pads l l')
include h

/-- What skips blanks in front of a line and behind its last mark does not tell padded lines
apart. -/
theorem Pads.eq {α : Type} {f : List Char → α} (hfront : ∀ b l, IsPadding b → f (b ++ l) = f l)
    (hback : ∀ c ∈ closingMarks, ∀ s t, IsPadding t → f (s ++ c :: t) = f (s ++ [c])) :
    f l' = f l := by
  obtain ⟨pre, post, hpre, hpost, rfl, hlast⟩ := h
  rw [hfront pre _ hpre]
  by_cases hne : post = []
  · rw [hne, List.append_nil]
  · obtain ⟨c, hmem, hc⟩ := hlast hne
    obtain ⟨s, rfl⟩ := List.getLast?_eq_some_iff.1 hmem
    rw [List.append_assoc]
    exact hback c hc s post hpost

theorem Pads.trim : trim l' = trim l :=
  h.eq (fun _ l hb => trim_blanks hb.isBlank l) fun _ _ s _ ht => trim_padded s ht

theorem Pads.moduleName? : moduleName? l' = moduleName? l :=
  h.eq (fun b l hb => by simp only [Listing.moduleName?, modulePath?, trimStart_append hb.isBlank])
    fun _ hc s _ ht => moduleName?_padded hc s ht

theorem Pads.useDecl? : useDecl? l' = useDecl? l :=
  h.eq (fun b l hb => by simp only [Listing.useDecl?, trimStart_append hb.isBlank])
    fun _ hc s _ ht => useDecl?_padded hc s ht

theorem Pads.constDecl? : constDecl? l' = constDecl? l :=
  h.eq (fun b l hb => by simp only [Listing.constDecl?, trimStart_append hb.isBlank])
    fun _ hc s _ ht => constDecl?_padded hc s ht

theorem Pads.structHeader? : structHeader? l' = structHeader? l :=
  h.eq
    (fun b l hb => by simp only [Listing.structHeader?, structParts?, trimStart_append hb.isBlank])
    fun _ hc s _ ht => structHeader?_padded hc s ht

theorem Pads.functionHeader? : functionHeader? l' = functionHeader? l :=
  h.eq
    (fun b l hb => by
      simp only [Listing.functionHeader?, functionStart?, trimStart_append hb.isBlank])
    fun _ hc s _ ht => functionHeader?_padded hc s ht

theorem Pads.isSome_functionStart? : (functionStart? l').isSome = (functionStart? l).isSome :=
  h.eq (f := fun l => (functionStart? l).isSome)
    (fun b l hb => by simp only [functionStart?, trimStart_append hb.isBlank])
    fun _ hc s _ ht => isSome_functionStart?_padded hc s ht

theorem Pads.opensBlock : opensBlock l' = opensBlock l :=
  h.eq (fun _ l hb => opensBlock_blanks hb.isBlank l) fun _ hc s _ ht => opensBlock_padded hc s ht

theorem Pads.startsInstruction : startsInstruction l' = startsInstruction l :=
  h.eq (fun b l hb => by simp only [Listing.startsInstruction, trimStart_append hb.isBlank])
    fun _ hc s _ _ => startsInstruction_padded hc s

theorem Pads.bodyLine : bodyLine l' = bodyLine l := by
  refine h.eq (fun b l hb => ?_) fun _ hc s _ ht => bodyLine_padded hc s ht
  have htrim := trimStart_append hb.isBlank l
  have hlabel : isLabel (b ++ l) = isLabel l := by rw [isLabel, htrim, isLabel]
  have hdecl : slotDecl? (b ++ l) = slotDecl? l := by rw [slotDecl?, htrim, slotDecl?]
  have hinstruction : instruction? (b ++ l) = instruction? l := by
    rw [instruction?, htrim, instruction?]
  rw [Listing.bodyLine, hlabel, hdecl, hinstruction, Listing.bodyLine]

theorem Pads.braceBalance : braceBalance l' = braceBalance l := by
  refine h.eq (fun _ l hb => braceBalance_blanks hb.isBlank l) fun c _ s t ht => ?_
  rw [List.append_cons, braceBalance_append, ht.isBraceless.balance, Int.add_zero]

theorem Pads.contains_brace : l'.contains '{' = l.contains '{' := by
  refine h.eq (f := fun l => l.contains '{') (fun _ l hb => contains_blanks hb.isBlank l)
    fun c _ s t ht => ?_
  have hno : '{' ∉ t := ht.not_mem (by decide)
  simp [hno]

theorem Pads.field? : field? l' = field? l := by
  refine h.eq (fun _ l hb => field?_blanks hb.isBlank l) fun c _ s t ht => ?_
  rw [List.append_cons, field?_append ht]

/-- What is read without the braces of its line may end with blanks where they stood. -/
theorem Pads.field?_unbraced : Listing.field? (unbraced l') = Listing.field? (unbraced l) := by
  have happend : ∀ s t, unbraced (s ++ t) = unbraced s ++ unbraced t := fun s t => List.map_append
  refine h.eq (f := fun l => Listing.field? (unbraced l)) (fun b l hb => ?_) fun c _ s t ht => ?_
  · rw [happend, unbraced_of_isBraceless hb.isBraceless, field?_blanks hb.isBlank]
  · rw [List.append_cons, happend, unbraced_of_isBraceless ht.isBraceless, field?_append ht]

/-! ## Reading padded lines -/

theorem Pads.readOutside : readOutside l' = readOutside l := by
  unfold Listing.readOutside readFunctionLine
  simp only [h.trim, h.moduleName?, h.useDecl?, h.constDecl?, h.structHeader?, h.functionHeader?,
    h.isSome_functionStart?, h.braceBalance, h.contains_brace]

theorem Pads.readLine_inStruct (decl : StructDecl) (depth : Int) (opened : Bool) :
    readLine (.inStruct decl depth opened) l' = readLine (.inStruct decl depth opened) l := by
  by_cases hopens : Listing.opensBlock l = true
  · rw [readLine, readLine, if_pos hopens, if_pos (h.opensBlock.trans hopens), h.readOutside]
  · have hopens : Listing.opensBlock l = false := by simpa using hopens
    have hopens' := h.opensBlock.trans hopens
    by_cases hbalance : Listing.braceBalance l = 0
    · rw [readLine_balanced hopens hbalance,
        readLine_balanced hopens' (h.braceBalance.trans hbalance), h.field?]
    · have hbalance' : Listing.braceBalance l' ≠ 0 := by rwa [h.braceBalance]
      rw [readLine_braced hopens hbalance, readLine_braced hopens' hbalance', h.field?_unbraced,
        h.braceBalance, h.contains_brace]

end

/-- What a line of a body spells. -/
def spelled (k : String) : BodyLine := bodyLine k.toList

theorem body_eq_of_spelled {ks ks' : List String} (h : ks'.map spelled = ks.map spelled) :
    body ks' = body ks :=
  congrArg Body.ofLines h

end Listing

/-- Two scopes that differ in no more than how the lines of a body are written. -/
inductive Scope.Alike : Scope → Scope → Prop where
  | outside : Alike .outside .outside
  | inStruct (decl : StructDecl) (depth : Int) (opened : Bool) :
    Alike (.inStruct decl depth opened) (.inStruct decl depth opened)
  | inFunction (block : FunctionListing) {body body' : List String} (depth : Int) (opened : Bool)
    (h : body'.map Listing.spelled = body.map Listing.spelled) :
    Alike (.inFunction block body depth opened) (.inFunction block body' depth opened)

theorem Scope.Alike.refl : ∀ s : Scope, Scope.Alike s s
  | .outside => .outside
  | .inStruct decl depth opened => .inStruct decl depth opened
  | .inFunction block _ depth opened => .inFunction block depth opened rfl

/-- Two declarations that are the same, or functions with the same content. -/
inductive Declaration.Alike : Declaration → Declaration → Prop where
  | same (d : Declaration) : Alike d d
  | function {f f' : FunctionListing} (h : f'.content = f.content) :
    Alike (.function f) (.function f')

/-- Readings that differ in no more than how the lines of bodies are written, and in what they
tell. -/
structure Reading.Alike (r r' : Reading) : Prop where
  scope : Scope.Alike r.scope r'.scope
  found : List.Forall₂ Declaration.Alike r.found r'.found

theorem Reading.Alike.refl (r : Reading) : Reading.Alike r r :=
  ⟨.refl r.scope, List.forall₂_same.2 fun d _ => .same d⟩

namespace Listing

theorem alike_finished (block : FunctionListing) {body body' : List String}
    (h : body'.map spelled = body.map spelled) :
    Declaration.Alike (.function (finished block body)) (.function (finished block body')) := by
  refine .function (congrArg (Prod.mk block.toFunctionHeader) (body_eq_of_spelled ?_))
  simp only [finished, List.map_reverse, h]

theorem alike_readInFunction (block : FunctionListing)
    {body body' : List String} (depth : Int) (opened : Bool)
    (hbody : body'.map spelled = body.map spelled) {l l' : List Char} (h : Pads l l') :
    Reading.Alike (readInFunction block body depth opened l)
      (readInFunction block body' depth opened l') := by
  have hkept : (String.ofList l' :: body').map spelled = (String.ofList l :: body).map spelled := by
    simp only [List.map_cons, hbody, spelled, String.toList_ofList, h.bodyLine]
  unfold readInFunction
  rw [h.startsInstruction, h.braceBalance, h.contains_brace, h.trim]
  dsimp only
  split
  · exact ⟨.inFunction block depth opened hkept, .nil⟩
  · split
    · exact ⟨.outside, .cons (alike_finished block hbody) .nil⟩
    · split
      · exact ⟨.inFunction block _ _ hbody, .nil⟩
      · exact ⟨.inFunction block _ _ hkept, .nil⟩

/-- **A padded line is read as the line itself**, but for how it is written in the body of a
function. -/
theorem alike_readLine {s s' : Scope} (hs : Scope.Alike s s') {l l' : List Char} (h : Pads l l') :
    Reading.Alike (readLine s l) (readLine s' l') := by
  cases hs with
  | outside =>
    rw [readLine, readLine, h.readOutside]
    exact .refl _
  | inStruct decl depth opened =>
    rw [h.readLine_inStruct]
    exact .refl _
  | inFunction block depth opened hbody =>
    rw [readLine, readLine, h.opensBlock, h.readOutside]
    split
    · exact ⟨.refl _, .cons (alike_finished block hbody) (Reading.Alike.refl _).found⟩
    · exact alike_readInFunction block depth opened hbody h

theorem alike_readEnd {s s' : Scope} (hs : Scope.Alike s s') :
    List.Forall₂ Declaration.Alike (readEnd s).found (readEnd s').found := by
  cases hs with
  | outside => exact .nil
  | inStruct decl depth opened => exact .nil
  | inFunction block depth opened hbody => exact .cons (alike_finished block hbody) .nil

/-- Padded lines declare what the lines themselves do. -/
theorem alike_foundFrom {ls ls' : List (List Char)} (h : List.Forall₂ Pads ls ls') {s s' : Scope}
    (hs : Scope.Alike s s') :
    List.Forall₂ Declaration.Alike (foundFrom s ls) (foundFrom s' ls') := by
  induction h generalizing s s' with
  | nil => exact alike_readEnd hs
  | cons hl _ ih =>
    obtain ⟨hscope, hfound⟩ := alike_readLine hs hl
    exact List.rel_append hfound (ih hscope)

theorem agrees_of_alike {ds ds' : List Declaration} (h : List.Forall₂ Declaration.Alike ds ds') :
    (ofDeclarations ds').Agrees (ofDeclarations ds) := by
  induction h with
  | nil => exact ⟨rfl, rfl, rfl, rfl, rfl⟩
  | @cons d d' ds ds' hd _ ih =>
    have hcons : ∀ d es, ofDeclarations (d :: es) =
        (ofDeclarations [d]).append (ofDeclarations es) := fun d es => ofDeclarations_append [d] es
    have hone : (ofDeclarations [d']).Agrees (ofDeclarations [d]) := by
      cases hd with
      | same => exact ⟨rfl, rfl, rfl, rfl, rfl⟩
      | function hf => exact ⟨rfl, rfl, rfl, rfl, congrArg (fun p => [p]) hf⟩
    rw [hcons d', hcons d]
    refine ⟨?_, ?_, ?_, ?_, ?_⟩
    · simp only [append, hone.moduleName, ih.moduleName]
    · simp only [append, hone.uses, ih.uses]
    · simp only [append, hone.constants, ih.constants]
    · simp only [append, hone.structs, ih.structs]
    · simp only [append, List.map_append, hone.functions, ih.functions]

/-- A text whose lines are padded declares what the text itself does. -/
theorem read_padded {text text' : String}
    (h : List.Forall₂ Pads (lines text.toList) (lines text'.toList)) :
    (read text').Agrees (read text) := by
  rw [read, read, declarations_eq, declarations_eq]
  exact agrees_of_alike (alike_foundFrom h .outside)

/-- A text is blank if all its lines are. -/
theorem trim_eq_nil_iff_lines (s : List Char) : trim s = [] ↔ ∀ l ∈ lines s, trim l = [] := by
  induction s using lines_induction with
  | last l hl =>
    rw [lines_of_notMem hl]
    cases l with
    | nil => exact ⟨fun _ _ h => absurd h List.not_mem_nil, fun _ => rfl⟩
    | cons c l => simp
  | cons l s hl ih =>
    have happend : trim (l ++ '\n' :: s) = [] ↔ trim l = [] ∧ trim s = [] := by
      simp only [trim_eq_nil_iff, List.forall_mem_append, List.forall_mem_cons]
      exact and_congr_right fun _ => and_iff_right rfl
    rw [lines_append_newline hl, List.forall_mem_cons, trim_dropReturn, ← ih, happend]

theorem trim_eq_nil_iff_of_padded {s s' : List Char} (h : List.Forall₂ Pads (lines s) (lines s')) :
    trim s' = [] ↔ trim s = [] := by
  rw [trim_eq_nil_iff_lines, trim_eq_nil_iff_lines]
  generalize lines s = ls at h ⊢
  generalize lines s' = ls' at h ⊢
  induction h with
  | nil => exact Iff.rfl
  | cons hl _ ih => rw [List.forall_mem_cons, List.forall_mem_cons, hl.trim, ih]

end Listing

/-! ## Decompiling listings that agree -/

namespace FunctionRun

/-- A run without the lines that it was read from. -/
def bare (f : FunctionRun) : FunctionRun := { f with listed := { f.listed with bodyLines := [] } }

/-- Functions with the same content are run alike. -/
theorem ofListing_of_content (c : Config) {f f' : FunctionListing} (h : f'.content = f.content) :
    (ofListing c f').map bare = (ofListing c f).map bare := by
  obtain ⟨header, ls⟩ := f
  obtain ⟨header', ls'⟩ := f'
  obtain ⟨hheader, hbody⟩ := Prod.mk.inj h
  dsimp only at hheader hbody
  subst hheader
  unfold ofListing loaded
  dsimp only
  rw [hbody]
  split
  · rfl
  · split
    · rfl
    · split <;> rfl

/-- What goes for the members of a list goes for the list, up to the first failure. -/
theorem map_mapM_of_content (c : Config) {fs fs' : List FunctionListing}
    (h : fs'.map FunctionListing.content = fs.map FunctionListing.content) :
    (fs'.mapM (ofListing c)).map (List.map bare) = (fs.mapM (ofListing c)).map (List.map bare) := by
  induction fs generalizing fs' with
  | nil =>
    rw [List.map_nil, List.map_eq_nil_iff] at h
    rw [h]
  | cons f fs ih =>
    obtain ⟨f', fs', rfl, hf, hfs⟩ := List.map_eq_cons_iff.1 h
    have hhead := ofListing_of_content c hf
    have htail := ih hfs
    rw [List.mapM_cons, List.mapM_cons]
    cases hrun : ofListing c f <;> cases hrun' : ofListing c f' <;>
      cases hruns : fs.mapM (ofListing c) <;> cases hruns' : fs'.mapM (ofListing c) <;>
      simp_all [bind, Except.bind, Except.map, pure, Except.pure]

end FunctionRun

namespace Decompilation

open Listing FunctionRun

theorem assemble_of_agrees {a a' : Listing} (h : a'.Agrees a) (runs : List FunctionRun) :
    assemble a' runs = assemble a runs := by
  rw [assemble, assemble, h.moduleName, h.uses, h.constants, h.structs]

/-- What does not look at the lines that runs were read from does not tell them apart. -/
theorem eq_of_bare {α : Type} {g : List FunctionRun → α} (hg : ∀ runs, g (runs.map bare) = g runs)
    {runs runs' : List FunctionRun} (h : runs'.map bare = runs.map bare) : g runs' = g runs := by
  rw [← hg, h, hg]

theorem assemble_bare (a : Listing) (runs : List FunctionRun) :
    assemble a (runs.map bare) = assemble a runs := by
  rw [assemble, List.map_map]
  rfl

theorem warnings_bare (runs : List FunctionRun) :
    (runs.map bare).flatMap (·.warnings) = runs.flatMap (·.warnings) := by
  rw [List.flatMap_map]
  rfl

theorem statisticsOf_bare (runs : List FunctionRun) :
    statisticsOf (runs.map bare) = statisticsOf runs := by
  rw [statisticsOf, List.foldl_map]
  rfl

/-- **Only what bodies spell counts.** Texts that are read as listings that agree are decompiled
alike. -/
theorem ofText?_of_agrees (c : Config) {text text' : String}
    (hblank : trim text'.toList = [] ↔ trim text.toList = [])
    (h : (read text').Agrees (read text)) : ofText? c text' = ofText? c text := by
  have hruns := map_mapM_of_content c h.functions
  unfold ofText?
  by_cases htext : trim text.toList = []
  · rw [if_pos htext, if_pos (hblank.2 htext)]
  · rw [if_neg htext, if_neg (mt hblank.1 htext)]
    dsimp only
    cases hok : (read text).functions.mapM (ofListing c) <;>
      cases hok' : (read text').functions.mapM (ofListing c) <;> rw [hok, hok'] at hruns
    case error.error e e' =>
      cases hruns
      simp only [bind, Except.bind]
    case ok.ok runs runs' =>
      have hbare : runs'.map bare = runs.map bare := Except.ok.inj hruns
      simp only [bind, Except.bind, assemble_of_agrees h, eq_of_bare (assemble_bare _) hbare,
        eq_of_bare warnings_bare hbare, eq_of_bare statisticsOf_bare hbare]
    all_goals cases hruns

/-- **Indentation is irrelevant.** Blanks in front of lines, and behind the marks that lines end
with, change nothing in what a text is decompiled to, nor in why it is not. -/
theorem ofText?_padded (c : Config) {text text' : String}
    (h : List.Forall₂ Pads (lines text.toList) (lines text'.toList)) :
    ofText? c text' = ofText? c text :=
  ofText?_of_agrees c (trim_eq_nil_iff_of_padded h) (read_padded h)

theorem ofText?_padded_call :
    let text := "fun main(a: u64) \x7b\n0: MoveLoc[0](a: u64)\n1: Pop\n\x7d\r\n"
    let text' := "\tfun main(a: u64) \x7b \n  0: MoveLoc[0](a: u64)\t\n 1: Pop\n\t\x7d  \r\n"
    List.Forall₂ Pads (lines text.toList) (lines text'.toList) ∧
    ofText? {} text' = ofText? {} text := by
  intro text text'
  have h : List.Forall₂ Pads (lines text.toList) (lines text'.toList) := by
    have hlines : lines text.toList = ["fun main(a: u64) \x7b".toList,
        "0: MoveLoc[0](a: u64)".toList, "1: Pop".toList, "\x7d".toList] := by
      decide +kernel
    have hlines' : lines text'.toList = [['\t'] ++ ("fun main(a: u64) \x7b".toList ++ [' ']),
        [' ', ' '] ++ ("0: MoveLoc[0](a: u64)".toList ++ ['\t']), [' '] ++ ("1: Pop".toList ++ []),
        ['\t'] ++ ("\x7d".toList ++ [' ', ' '])] := by
      decide +kernel
    rw [hlines, hlines']
    exact .cons ⟨_, _, by decide, by decide, rfl, fun _ => ⟨'{', by decide +kernel⟩⟩
      (.cons ⟨_, _, by decide, by decide, rfl, fun _ => ⟨')', by decide +kernel⟩⟩
      (.cons ⟨_, _, by decide, by decide, rfl, absurd rfl⟩
      (.cons ⟨_, _, by decide, by decide, rfl, fun _ => ⟨'}', by decide +kernel⟩⟩ .nil)))
  exact ⟨h, ofText?_padded {} h⟩

end Decompilation

end PseudoMove
