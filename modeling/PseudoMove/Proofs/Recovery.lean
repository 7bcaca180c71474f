import PseudoMove.Proofs.FunctionLines
import PseudoMove.Proofs.LineByLine
import PseudoMove.Proofs.TrailingReturn
import Mathlib.Data.List.Forall2

/-!
# Pseudo-source read again

A module is read back from its pseudo-source.

* `PseudoModule.Legible m`: no text in `m` hides where it ends;
* `Declares size ls ds`: outside all blocks, the lines `ls` are read as the declarations
  `ds`, whatever follows them;
* `declares_module`: a legible module is written in lines that declare just what it consists of;
* `read_render`: reading the text of a legible module gives the module back.
-/

namespace PseudoMove

open Text PseudoMove.Bracket Listing Source

/-! ## What can be read back -/

/-- A statement that stays in its function. One that can be read as a header would end
the function before it. -/
structure IsStatement (s : String) : Prop where
  newline : '\n' ∉ s.toList
  balance : braceBalance s.toList = 0
  header : opensBlock s.toList = false

instance (s : String) : Decidable (IsStatement s) :=
  decidable_of_iff (_ ∧ _ ∧ _) ⟨fun ⟨h1, h2, h3⟩ => ⟨h1, h2, h3⟩, fun ⟨h1, h2, h3⟩ => ⟨h1, h2, h3⟩⟩

/-- A function whose header can be taken apart and whose statements end neither the
function nor their line. -/
structure PseudoFunction.Legible (f : PseudoFunction) : Prop where
  header : f.toFunctionHeader.Legible
  statements : ∀ s ∈ f.statements, IsStatement s

instance (f : PseudoFunction) : Decidable f.Legible :=
  decidable_of_iff (_ ∧ _) ⟨fun ⟨h1, h2⟩ => ⟨h1, h2⟩, fun ⟨h1, h2⟩ => ⟨h1, h2⟩⟩

/-- A module that can be read back from what is written of it. -/
structure PseudoModule.Legible (m : PseudoModule) : Prop where
  name : m.name ≠ "" ∧ m.name.toList.all isNamePart = true
  uses : ∀ d ∈ m.uses, d.Legible
  constants : ∀ d ∈ m.constants, d.Legible
  structs : ∀ d ∈ m.structs, d.Legible
  functions : ∀ f ∈ m.functions, f.Legible

instance (m : PseudoModule) : Decidable m.Legible :=
  decidable_of_iff (_ ∧ _ ∧ _ ∧ _ ∧ _)
    ⟨fun ⟨h1, h2, h3, h4, h5⟩ => ⟨h1, h2, h3, h4, h5⟩, fun ⟨h1, h2, h3, h4, h5⟩ =>
      ⟨h1, h2, h3, h4, h5⟩⟩

namespace Listing

/-- The body lines that statements leave: those that are not blank, with their indentation and
without a carriage return at the end. -/
def statementLines (size : Nat) (ss : List String) : List String :=
  (ss.filter fun s => trim s.toList ≠ []).map fun s =>
    indentation 2 size ++ String.ofList (dropReturn s.toList)

/-- A function as it is read back. Without statements there is a comment in its body. -/
def ofFunction (size : Nat) (f : PseudoFunction) : FunctionListing where
  toFunctionHeader := unitAsEmpty f.toFunctionHeader
  bodyLines := statementLines size (if f.statements = [] then [emptyBodyComment] else f.statements)

/-- A module as it is read back. -/
def ofModule (size : Nat) (m : PseudoModule) : Listing where
  moduleName := some m.name
  uses := m.uses
  constants := m.constants
  structs := m.structs
  functions := m.functions.map (ofFunction size)

/-! ## Lines -/

/-- A line of pseudo-source as it stands among the lines of the text. -/
def lineOf (size : Nat) : SourceLine → List Char
  | .blank => []
  | .code level text => List.replicate (level * size) ' ' ++ dropReturn text.toList

/-- A line whose text is one line. -/
def IsOneLine : SourceLine → Prop
  | .blank => True
  | .code _ text => '\n' ∉ text.toList

theorem dropReturn_append {t : List Char} (ht : ∃ c ∈ t.getLast?, c ≠ '\r') (s : List Char) :
    dropReturn (s ++ t) = s ++ t := by
  obtain ⟨c, hc, hreturn⟩ := ht
  refine if_neg fun h => hreturn ?_
  rw [List.getLast?_append, Option.mem_def.1 hc, Option.some_or] at h
  exact Option.some.inj h

theorem dropReturn_indent (n : Nat) (s : List Char) :
    dropReturn (List.replicate n ' ' ++ s) = List.replicate n ' ' ++ dropReturn s := by
  have hspaces : (List.replicate n ' ').getLast? ≠ some '\r' := fun h =>
    absurd (List.eq_of_mem_replicate (List.mem_of_getLast? h)) (by decide)
  cases hs : s.getLast? with
  | none =>
    rw [List.getLast?_eq_none_iff.1 hs, List.append_nil]
    exact (if_neg hspaces).trans (List.append_nil _).symm
  | some c =>
    have hlast : (List.replicate n ' ' ++ s).getLast? = some c := by
      rw [List.getLast?_append, hs, Option.some_or]
    have hne : s ≠ [] := by
      rintro rfl
      simp at hs
    rw [dropReturn, dropReturn, hlast, hs]
    split
    · exact List.dropLast_append_of_ne_nil hne
    · rfl

/-- Only a carriage return at the end is lost. -/
theorem eq_dropReturn_or (s : List Char) : dropReturn s = s ∨ s = dropReturn s ++ ['\r'] := by
  unfold dropReturn
  split
  · next h => exact .inr (List.dropLast_append_getLast? _ h).symm
  · exact .inl rfl

theorem trim_dropReturn (s : List Char) : trim (dropReturn s) = trim s := by
  rcases eq_dropReturn_or s with h | h
  · rw [h]
  · exact (trim_append (by decide) _).symm.trans (congrArg trim h.symm)

theorem braceBalance_dropReturn (s : List Char) : braceBalance (dropReturn s) = braceBalance s := by
  rcases eq_dropReturn_or s with h | h
  · rw [h]
  · have hreturn : braceBalance ['\r'] = 0 := rfl
    have := braceBalance_append (dropReturn s) ['\r']
    rw [← h, hreturn] at this
    omega

theorem opensBlock_dropReturn {s : List Char} (h : opensBlock s = false) :
    opensBlock (dropReturn s) = false := by
  rcases eq_dropReturn_or s with hs | hs
  · rw [hs, h]
  · rw [hs] at h
    exact Bool.eq_false_iff.2 fun hopens => Bool.eq_false_iff.1 h (opensBlock_append_return hopens)

/-- A text whose last piece does not end in a carriage return stands on its line as it is. -/
theorem lineOf_append (size level : Nat) (text : String) {last : String}
    (hlast : ∃ c ∈ last.toList.getLast?, c ≠ '\r') :
    lineOf size (.code level (text ++ last)) =
      List.replicate (level * size) ' ' ++ (text ++ last).toList := by
  rw [lineOf, String.toList_append, dropReturn_append hlast]

theorem lines_render (size : Nat) {ls : List SourceLine} (hls : ∀ l ∈ ls, IsOneLine l) :
    lines (String.join (ls.map (SourceLine.render size))).toList = ls.map (lineOf size) := by
  induction ls with
  | nil => rfl
  | cons l ls ih =>
    obtain ⟨s, hs, hline, hread⟩ : ∃ s, (l.render size).toList = s ++ ['\n'] ∧ '\n' ∉ s ∧
        dropReturn s = lineOf size l := by
      cases l with
      | blank => exact ⟨[], by simp [SourceLine.render], by simp, rfl⟩
      | code level text =>
        have htext : '\n' ∉ text.toList := hls _ List.mem_cons_self
        refine ⟨List.replicate (level * size) ' ' ++ text.toList, ?_, ?_, dropReturn_indent _ _⟩
        · simp [SourceLine.render, indentation]
        · simp [List.mem_replicate, htext]
    have ih := ih fun x hx => hls x (List.mem_cons_of_mem _ hx)
    rw [String.toList_join] at ih ⊢
    rw [List.map_cons, List.flatMap_cons, hs, List.append_assoc, List.singleton_append,
      lines_append_newline hline, hread, ih, List.map_cons]

/-! ## What lines declare -/

/-- Outside all blocks, the lines are read as these declarations, whatever follows them. -/
def Declares (size : Nat) (ls : List SourceLine) (ds : List Declaration) : Prop :=
  ∀ rest, foundFrom .outside (ls.map (lineOf size) ++ rest) = ds ++ foundFrom .outside rest

variable {size : Nat} {ls ks : List SourceLine} {ds es : List Declaration}

theorem Declares.nil : Declares size [] [] := fun _ => rfl

theorem Declares.append (hl : Declares size ls ds) (hk : Declares size ks es) :
    Declares size (ls ++ ks) (ds ++ es) := by
  intro rest
  rw [List.map_append, List.append_assoc, hl, hk, List.append_assoc]

/-- A line that opens no block declares what it is read as. -/
theorem Declares.line {l : SourceLine}
    (h : readOutside (lineOf size l) = { scope := .outside, found := ds }) :
    Declares size [l] ds := by
  intro rest
  rw [List.map_singleton, List.singleton_append, foundFrom_cons, readLine, h]

theorem Declares.map {α : Type} {f : α → SourceLine} {g : α → Declaration} {xs : List α}
    (h : ∀ x ∈ xs, Declares size [f x] [g x]) : Declares size (xs.map f) (xs.map g) := by
  induction xs with
  | nil => exact .nil
  | cons x xs ih =>
    exact (h x List.mem_cons_self).append (ih fun y hy => h y (List.mem_cons_of_mem _ hy))

/-- Sections with blank lines between them declare what they declare one by one. -/
theorem Declares.intercalate {lss : List (List SourceLine)} {dss : List (List Declaration)}
    (h : List.Forall₂ (Declares size) lss dss) :
    Declares size ([SourceLine.blank].intercalate lss) dss.flatten := by
  have hblank : Declares size [.blank] [] := .line rfl
  induction h with
  | nil => exact .nil
  | cons hl hls ih =>
    cases hls with
    | nil => simpa using hl
    | cons hk hks =>
      rw [List.intercalate_cons_cons, List.flatten_cons]
      have := (hl.append hblank).append ih
      rwa [List.append_nil] at this

/-! ## Uses and constants -/

theorem declares_uses (size : Nat) {us : List UseDecl} (hus : ∀ d ∈ us, d.Legible) :
    Declares size (us.map fun u => .code 1 ("use " ++ u.path ++ ";")) (us.map .useDecl) := by
  refine Declares.map fun d hd => .line ?_
  rw [lineOf_append _ _ _ ⟨';', rfl, by decide⟩, readOutside_indent, readOutside_use (hus d hd)]

theorem declares_constants (size : Nat) {ks : List ConstDecl} (hks : ∀ d ∈ ks, d.Legible) :
    Declares size (ks.map fun k =>
      .code 1 ("const " ++ k.name ++ ": " ++ k.constType ++ " = " ++ k.value ++ ";"))
      (ks.map .constDecl) := by
  refine Declares.map fun d hd => .line ?_
  rw [lineOf_append _ _ _ ⟨';', rfl, by decide⟩, readOutside_indent, readOutside_const (hks d hd)]

/-! ## Structs -/

theorem foundFrom_fields {fs : List Field} (hfs : ∀ f ∈ fs, f.Legible) (d : StructDecl)
    (rest : List (List Char)) :
    foundFrom (.inStruct d 1 true)
        ((fs.map fun f => SourceLine.code 2 (f.name ++ ": " ++ f.fieldType ++ ",")).map
            (lineOf size) ++
          rest) =
      foundFrom (.inStruct { d with fields := d.fields ++ fs } 1 true) rest := by
  induction fs generalizing d with
  | nil => simp
  | cons f fs ih =>
    have ih :=
      ih (fun g hg => hfs g (List.mem_cons_of_mem _ hg)) { d with fields := d.fields ++ [f] }
    rw [List.map_cons, List.map_cons, List.cons_append, foundFrom_cons,
      lineOf_append _ _ _ ⟨',', rfl, by decide⟩, readLine_field (hfs f List.mem_cons_self)]
    simpa using ih

theorem declares_struct (size : Nat) {d : StructDecl} (hd : d.Legible) :
    Declares size (structLines d) [.structDecl d] := by
  by_cases hfields : d.fields = []
  · have hd' : ({ d with fields := [] } : StructDecl) = d := by rw [← hfields]
    rw [structLines, if_pos hfields]
    refine .line ?_
    rw [lineOf_append _ _ _ ⟨'}', rfl, by decide⟩, readOutside_indent,
      readOutside_emptyStruct hd, hd']
  · have hclose : lineOf size (.code 1 "\x7d") = List.replicate (1 * size) ' ' ++ ['}'] := rfl
    intro rest
    rw [structLines, if_neg hfields, List.cons_append, List.map_cons, List.cons_append,
      foundFrom_cons, readLine, lineOf_append _ _ _ ⟨'{', rfl, by decide⟩, readOutside_indent,
      readOutside_openStruct hd, List.nil_append, List.map_append, List.append_assoc,
      foundFrom_fields hd.fields, List.map_singleton, List.singleton_append,
      foundFrom_cons, hclose, readLine_closeStruct]
    rfl

/-! ## Functions -/

theorem foundFrom_statements {ss : List String} (hss : ∀ s ∈ ss, IsStatement s)
    (b : FunctionListing) (body : List String) (rest : List (List Char)) :
    foundFrom (.inFunction b body 1 true)
      ((ss.map (SourceLine.code 2 ·)).map (lineOf size) ++ rest) =
      foundFrom (.inFunction b ((statementLines size ss).reverse ++ body) 1 true) rest := by
  induction ss generalizing body with
  | nil => rfl
  | cons s ss ih =>
    have ih := ih fun x hx => hss x (List.mem_cons_of_mem _ hx)
    obtain ⟨-, hbalance, hheader⟩ := hss s List.mem_cons_self
    have hopens : opensBlock (lineOf size (.code 2 s)) = false := by
      rw [lineOf, opensBlock_indent, opensBlock_dropReturn hheader]
    have hbalance : braceBalance (lineOf size (.code 2 s)) = 0 := by
      rw [lineOf, braceBalance_indent, braceBalance_dropReturn, hbalance]
    have hblank : trim (lineOf size (.code 2 s)) = trim s.toList := by
      rw [lineOf, trim_indent, trim_dropReturn]
    have htext : String.ofList (lineOf size (.code 2 s)) =
        indentation 2 size ++ String.ofList (dropReturn s.toList) := String.ofList_append
    rw [List.map_cons, List.map_cons, List.cons_append, foundFrom_cons,
      readLine_statement b body hopens hbalance, List.nil_append, ih, hblank, htext]
    by_cases hs : trim s.toList = [] <;> simp [statementLines, hs]

theorem isStatement_emptyBodyComment : IsStatement emptyBodyComment where
  newline := by decide
  balance := by decide
  header := opensBlock_of_none rfl rfl rfl

theorem declares_function (size : Nat) {f : PseudoFunction} (hf : f.Legible) :
    Declares size (functionLines f) [.function (ofFunction size f)] := by
  have hclose : lineOf size (.code 1 "\x7d") = List.replicate (1 * size) ' ' ++ ['}'] := rfl
  have hbody : ∀ s ∈ if f.statements = [] then [emptyBodyComment] else f.statements,
      IsStatement s := by
    split
    · simpa using isStatement_emptyBodyComment
    · exact hf.statements
  have hlines :
      (if f.statements = [] then [SourceLine.code 2 emptyBodyComment]
        else f.statements.map (.code 2 ·)) =
      (if f.statements = [] then [emptyBodyComment] else f.statements).map (.code 2 ·) := by
    split <;> rfl
  intro rest
  rw [functionLines, hlines, List.cons_append, List.map_cons, List.cons_append,
    foundFrom_cons, readLine, lineOf_append _ _ _ ⟨'{', rfl, by decide⟩, readOutside_indent,
    readOutside_functionHeader hf.header, List.nil_append, List.map_append, List.append_assoc,
    foundFrom_statements hbody, List.map_singleton, List.singleton_append, foundFrom_cons, hclose,
    readLine_closeFunction, List.append_nil, finished, List.reverse_reverse]
  rfl

/-! ## Modules -/

theorem forall₂_map {α : Type} {f : α → List SourceLine} {g : α → List Declaration} {xs : List α}
    (h : ∀ x ∈ xs, Declares size (f x) (g x)) :
    List.Forall₂ (Declares size) (xs.map f) (xs.map g) := by
  rw [List.forall₂_map_left_iff, List.forall₂_map_right_iff]
  exact List.forall₂_same.2 h

/-- The sections of a module declare its uses, its constants, its structs and its functions. -/
theorem declares_sections (size : Nat) (c : Config) {m : PseudoModule} (hm : m.Legible) :
    Declares size ([SourceLine.blank].intercalate (sections c m))
      ((if c.renderUseDeclarations then m.uses else []).map .useDecl ++
        m.constants.map .constDecl ++
        m.structs.map .structDecl ++ m.functions.map fun f => .function (ofFunction size f)) := by
  have hoption {p : Prop} [Decidable p] {ls : List SourceLine} {ds : List Declaration}
      (h : Declares size ls ds) :
      List.Forall₂ (Declares size) (if p then [ls] else []) (if p then [ds] else []) := by
    split
    · exact .cons h .nil
    · exact .nil
  have huses :=
    hoption (p := c.renderUseDeclarations = true ∧ m.uses ≠ []) (declares_uses size hm.uses)
  have hconstants := hoption (p := m.constants ≠ []) (declares_constants size hm.constants)
  have hstructs := forall₂_map fun d hd => declares_struct size (hm.structs d hd)
  have hfunctions := forall₂_map fun f hf => declares_function size (hm.functions f hf)
  have hsections := Declares.intercalate
    (List.rel_append (List.rel_append (List.rel_append huses hconstants) hstructs) hfunctions)
  have huses :
      (if c.renderUseDeclarations = true ∧ m.uses ≠ [] then [m.uses.map Declaration.useDecl]
        else []).flatten =
      (if c.renderUseDeclarations then m.uses else []).map .useDecl := by
    by_cases hc : c.renderUseDeclarations = true <;> by_cases hu : m.uses = [] <;> simp [hc, hu]
  have hconstants :
      (if m.constants ≠ [] then [m.constants.map Declaration.constDecl] else []).flatten =
      m.constants.map .constDecl := by
    by_cases hk : m.constants = [] <;> simp [hk]
  rw [List.flatten_append, List.flatten_append, List.flatten_append, huses, hconstants,
    ← List.flatMap_def, ← List.flatMap_def] at hsections
  simpa [sections, List.map_eq_flatMap] using hsections

theorem declares_module (size : Nat) (c : Config) {m : PseudoModule} (hm : m.Legible) :
    Declares size (moduleLines c m)
      (.moduleName m.name :: ((if c.renderUseDeclarations then m.uses else []).map .useDecl ++
        m.constants.map .constDecl ++ m.structs.map .structDecl ++
        m.functions.map fun f => .function (ofFunction size f))) := by
  have hcomment :
      Declares size (if c.emitHeaderComment then [.code 0 headerComment] else []) [] := by
    split
    · refine .line ?_
      rw [lineOf, readOutside_indent]
      rfl
    · exact .nil
  have hmodule : Declares size [.code 0 ("module " ++ m.name ++ " \x7b")] [.moduleName m.name] := by
    refine .line ?_
    rw [lineOf_append _ _ _ ⟨'{', rfl, by decide⟩, readOutside_indent,
      readOutside_module hm.name.1 hm.name.2]
  have hclose : Declares size [.code 0 "\x7d"] [] := by
    refine .line ?_
    rw [lineOf, readOutside_indent]
    exact readOutside_of_none rfl rfl rfl (opensBlock_close 0)
  have := ((hcomment.append hmodule).append (declares_sections size c hm)).append hclose
  rwa [List.append_nil] at this

/-! ## The text -/

theorem newline_notMem_of_namePart {n : List Char} (hn : n.all isNamePart = true) : '\n' ∉ n :=
  fun h => ne_of_isNamePart (List.all_eq_true.1 hn _ h) rfl rfl

theorem isOneLine_structLines {d : StructDecl} (hd : d.Legible) :
    ∀ l ∈ structLines d, IsOneLine l := by
  have hheader := newline_notMem_structHeader hd
  have hfields : ∀ f ∈ d.fields, '\n' ∉ f.name.toList ∧ '\n' ∉ f.fieldType.toList :=
    fun f hf => ⟨newline_notMem_of_namePart (hd.fields f hf).name.2, (hd.fields f hf).fieldType.2⟩
  unfold structLines
  split
  · simp [IsOneLine, hheader]
  · simpa [IsOneLine, hheader, or_imp, forall_and] using hfields

theorem isOneLine_functionLines {f : PseudoFunction} (hf : f.Legible) :
    ∀ l ∈ functionLines f, IsOneLine l := by
  have hheader := newline_notMem_functionHeader hf.header
  have hstatements : ∀ s ∈ f.statements, '\n' ∉ s.toList := fun s hs => (hf.statements s hs).newline
  unfold functionLines
  split
  · simp [IsOneLine, hheader, isStatement_emptyBodyComment.newline]
  · simpa [IsOneLine, hheader, or_imp, forall_and] using hstatements

theorem isOneLine_sections (c : Config) {m : PseudoModule} (hm : m.Legible) :
    ∀ ls ∈ sections c m, ∀ l ∈ ls, IsOneLine l := by
  have huses : ∀ d ∈ m.uses, '\n' ∉ d.path.toList := fun d hd => (hm.uses d hd).path.2
  have hconstants : ∀ d ∈ m.constants, '\n' ∉ d.name.toList ∧ '\n' ∉ d.constType.toList ∧
      '\n' ∉ d.value.toList :=
    fun d hd => ⟨newline_notMem_of_namePart (hm.constants d hd).name.2,
      (hm.constants d hd).constType.2, (hm.constants d hd).value.2⟩
  intro ls hls
  simp only [sections, List.mem_append] at hls
  rcases hls with ((hls | hls) | hls) | hls
  · split at hls
    · obtain rfl := List.mem_singleton.1 hls
      simpa [IsOneLine] using huses
    · simp at hls
  · split at hls
    · obtain rfl := List.mem_singleton.1 hls
      simpa [IsOneLine] using hconstants
    · simp at hls
  · obtain ⟨d, hd, rfl⟩ := List.mem_map.1 hls
    exact isOneLine_structLines (hm.structs d hd)
  · obtain ⟨f, hf, rfl⟩ := List.mem_map.1 hls
    exact isOneLine_functionLines (hm.functions f hf)

theorem isOneLine_moduleLines (c : Config) {m : PseudoModule} (hm : m.Legible) :
    ∀ l ∈ moduleLines c m, IsOneLine l := by
  have hcomment : ∀ l ∈ if c.emitHeaderComment then [SourceLine.code 0 headerComment] else [],
      IsOneLine l := by
    split <;> simp [IsOneLine, headerComment]
  have hmodule : IsOneLine (.code 0 ("module " ++ m.name ++ " \x7b")) := by
    simp [IsOneLine, newline_notMem_of_namePart hm.name.2]
  have hblank : ∀ l ∈ [SourceLine.blank], IsOneLine l := by simp [IsOneLine]
  unfold moduleLines
  refine List.forall_mem_append.2
    ⟨List.forall_mem_append.2 ⟨List.forall_mem_append.2 ⟨hcomment, ?_⟩, ?_⟩, ?_⟩
  · simpa using hmodule
  · exact forall_mem_intercalate hblank (isOneLine_sections c hm)
  · simp [IsOneLine]

/-- **A module is read back from its pseudo-source**, with header comment or without, and with any
indentation. The body of a function has the statements that are not blank, and a return type written
as unit is read as none. -/
theorem read_render (c : Config) {m : PseudoModule} (hm : m.Legible) :
    read (render c m) =
      { ofModule c.indentSize m with uses := if c.renderUseDeclarations then m.uses else [] } := by
  have hfound := declares_module c.indentSize c hm []
  rw [List.append_nil] at hfound
  rw [read, declarations_eq, render, lines_render _ (isOneLine_moduleLines c hm), hfound]
  simp [ofDeclarations, ofModule, foundFrom, readEnd, List.filterMap_append, List.filterMap_map]

/-- A module with each kind of declaration and of visibility. -/
def vault : PseudoModule where
  name := "vault"
  uses := [⟨"0x2::coin"⟩]
  constants := [⟨"LIMIT", "u64", "1 == 1"⟩]
  structs := [
    { name := "Vault", typeParameters := ["phantom T", "U"], abilities := [.key, .store]
      fields := [⟨"struct", "Table<U, Coin<T>>"⟩, ⟨"owner", "address"⟩] },
    { name := "Marker" }]
  functions := [
    { visibility := .friendOnly, name := "fun", typeParameters := ["T: store"], returnType := "()"
      parameters := [⟨"v", "&mut Vault<T, (u8, u8)>"⟩, ⟨"n", "u64"⟩]
      statements := ["", "if (n == 0) \x7b abort 1 \x7d\r", "0: Ret"] },
    { visibility := .publicEntry, name := "size", returnType := "(u64, bool)" }]

/-- The module is read back without the blank statement, and with a comment for the
body without statements. -/
theorem read_render_vault :
    vault.Legible ∧ read (render {} vault) = { ofModule 4 vault with
      functions := [
        { visibility := .friendOnly, name := "fun", typeParameters := ["T: store"]
          parameters := [⟨"v", "&mut Vault<T, (u8, u8)>"⟩, ⟨"n", "u64"⟩]
          bodyLines := ["        if (n == 0) \x7b abort 1 \x7d", "        0: Ret"] },
        { visibility := .publicEntry, name := "size", returnType := "(u64, bool)"
          bodyLines := ["        // no statements produced"] }] } := by
  have h : vault.Legible := by decide +kernel
  refine ⟨h, (read_render {} h).trans ?_⟩
  decide +kernel

end Listing

end PseudoMove
