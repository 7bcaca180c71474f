import PseudoMove.Listing.Pass
import PseudoMove.Proofs.BracketedList

/-!
# Lines that are declarations

A line outside all blocks is tried as one declaration after the other; the first that it can be read
as decides (`readOutside_of_moduleName?` and the lemmas after it).  The indentation of a line counts
for nothing (`readOutside_indent`).  What is written in the form of a module header, a use
declaration or a constant is read back from its line, if the texts in it are such that one can see
where they end (`UseDecl.Legible`, `ConstDecl.Legible`).
-/

namespace PseudoMove

open Text PseudoMove.Bracket Listing

/-! ## Texts that can be found again -/

namespace Listing

/-- A text of one line that is not empty and has no blanks at its ends. -/
def IsEntry (s : String) : Prop := IsTrimmed s.toList ∧ '\n' ∉ s.toList

instance (s : String) : Decidable (IsEntry s) := inferInstanceAs (Decidable (_ ∧ _))

/-- What holds of the characters of names and of some others holds of those of a text made of
both. -/
theorem forall_mem_of_word {P : Char → Prop}
    {others w : List Char} (hname : ∀ c, isNamePart c = true → P c)
    (hothers : ∀ c ∈ others, P c) (hw : w.all (fun c => isNamePart c || others.contains c) = true) :
    ∀ c ∈ w, P c := by
  intro c hc
  have := List.all_eq_true.1 hw c hc
  rw [Bool.or_eq_true, List.contains_iff_mem] at this
  exact this.elim (hname c) (hothers c)

/-- A text without braces. -/
def IsBraceless (s : List Char) : Prop := ∀ c ∈ s, c ≠ '{' ∧ c ≠ '}'

instance (s : List Char) : Decidable (IsBraceless s) := List.decidableBAll _ s

theorem IsBraceless.append {s t : List Char} (hs : IsBraceless s) (ht : IsBraceless t) :
    IsBraceless (s ++ t) := by
  intro c hc
  rcases List.mem_append.1 hc with hc | hc
  · exact hs c hc
  · exact ht c hc

theorem IsBraceless.balance {s : List Char} (hs : IsBraceless s) : braceBalance s = 0 := by
  have ho : s.count '{' = 0 := List.count_eq_zero.2 fun h => (hs _ h).1 rfl
  have hc : s.count '}' = 0 := List.count_eq_zero.2 fun h => (hs _ h).2 rfl
  rw [Listing.braceBalance, ho, hc]
  rfl

theorem isBraceless_of_namePart {s : List Char} (hs : s.all isNamePart = true) : IsBraceless s := by
  intro c hc
  have hpart := List.all_eq_true.1 hs c hc
  exact ⟨ne_of_isNamePart hpart rfl, ne_of_isNamePart hpart rfl⟩

end Listing

/-- A use declaration whose end can be seen. -/
structure UseDecl.Legible (d : UseDecl) : Prop where
  path : IsEntry d.path
  semicolon : ';' ∉ d.path.toList

instance (d : UseDecl) : Decidable d.Legible :=
  decidable_of_iff (_ ∧ _) ⟨fun ⟨h1, h2⟩ => ⟨h1, h2⟩, fun ⟨h1, h2⟩ => ⟨h1, h2⟩⟩

/-- A constant whose value can be told from its type. -/
structure ConstDecl.Legible (d : ConstDecl) : Prop where
  name : IsIdentifier d.name.toList
  constType : IsEntry d.constType
  equals : '=' ∉ d.constType.toList
  value : IsEntry d.value

instance (d : ConstDecl) : Decidable d.Legible :=
  decidable_of_iff (_ ∧ _ ∧ _ ∧ _)
    ⟨fun ⟨h1, h2, h3, h4⟩ => ⟨h1, h2, h3, h4⟩, fun ⟨h1, h2, h3, h4⟩ => ⟨h1, h2, h3, h4⟩⟩

namespace Listing

/-! ## Indentation -/

theorem braceBalance_append (s t : List Char) :
    braceBalance (s ++ t) = braceBalance s + braceBalance t := by
  simp only [braceBalance, List.count_append]
  omega

theorem isBraceless_of_isBlank {b : List Char} (hb : b.all isBlank = true) : IsBraceless b := by
  intro c hc
  have hblank := List.all_eq_true.1 hb c hc
  exact ⟨ne_of_isBlank hblank rfl, ne_of_isBlank hblank rfl⟩

section

variable {b : List Char} (hb : b.all isBlank = true) (l : List Char)
include hb

theorem braceBalance_blanks : braceBalance (b ++ l) = braceBalance l := by
  rw [braceBalance_append, (isBraceless_of_isBlank hb).balance, Int.zero_add]

theorem contains_blanks : (b ++ l).contains '{' = l.contains '{' := by
  have hbrace : '{' ∉ b := fun h => (isBraceless_of_isBlank hb _ h).1 rfl
  simp [hbrace]

theorem opensBlock_blanks : opensBlock (b ++ l) = opensBlock l := by
  simp only [opensBlock, structParts?, functionStart?, trimStart_append hb]

theorem field?_blanks : field? (b ++ l) = field? l := by
  rw [field?, trimStart_append hb, field?]

theorem readOutside_blanks : readOutside (b ++ l) = readOutside l := by
  simp only [readOutside, readFunctionLine, moduleName?, modulePath?, useDecl?, constDecl?,
    structHeader?, structParts?, functionHeader?, functionStart?, trimStart_append hb,
    trim_blanks hb, braceBalance_blanks hb, contains_blanks hb]

end

theorem isBlank_indent (n : Nat) : (List.replicate n ' ').all isBlank = true := by
  simp [show isBlank ' ' = true from rfl]

theorem trimStart_indent (n : Nat) (s : List Char) :
    trimStart (List.replicate n ' ' ++ s) = trimStart s :=
  trimStart_append (isBlank_indent n) s

theorem trim_indent (n : Nat) (s : List Char) : trim (List.replicate n ' ' ++ s) = trim s :=
  trim_blanks (isBlank_indent n) s

theorem braceBalance_indent (n : Nat) (l : List Char) :
    braceBalance (List.replicate n ' ' ++ l) = braceBalance l :=
  braceBalance_blanks (isBlank_indent n) l

theorem opensBlock_indent (n : Nat) (l : List Char) :
    opensBlock (List.replicate n ' ' ++ l) = opensBlock l :=
  opensBlock_blanks (isBlank_indent n) l

theorem field?_indent (n : Nat) (l : List Char) : field? (List.replicate n ' ' ++ l) = field? l :=
  field?_blanks (isBlank_indent n) l

theorem readOutside_indent (n : Nat) (l : List Char) :
    readOutside (List.replicate n ' ' ++ l) = readOutside l :=
  readOutside_blanks (isBlank_indent n) l

/-! ## One declaration on a line -/

/-- A line that is tried as a declaration: it begins neither with a blank nor as a comment. -/
def IsTried (l : List Char) : Prop := ∃ c ∈ l.head?, isBlank c = false ∧ c ≠ '/'

theorem IsTried.not_passedOver {l : List Char} (hl : IsTried l) :
    ¬ (trim l = [] ∨ "//".toList.isPrefixOf (trim l) = true) := by
  obtain ⟨c, hmem, hc, hslash⟩ := hl
  obtain ⟨s, rfl⟩ := List.head?_eq_some_iff.1 hmem
  rw [trim_cons hc]
  rintro (h | h)
  · exact absurd h (by simp)
  · obtain ⟨t, ht⟩ := List.isPrefixOf_iff_prefix.1 h
    exact hslash (List.cons.inj ht).1.symm

section

variable {l : List Char} (hl : IsTried l)
include hl

theorem readOutside_of_moduleName? {name : String} (h : moduleName? l = some name) :
    readOutside l = { scope := .outside, found := [.moduleName name] } := by
  unfold readOutside
  dsimp only
  rw [if_neg hl.not_passedOver, h]

theorem readOutside_of_useDecl? {d : UseDecl} (hm : moduleName? l = none)
    (h : useDecl? l = some d) :
    readOutside l = { scope := .outside, found := [.useDecl d] } := by
  unfold readOutside
  dsimp only
  rw [if_neg hl.not_passedOver, hm, h]

theorem readOutside_of_constDecl? {d : ConstDecl} (hm : moduleName? l = none)
    (hu : useDecl? l = none) (h : constDecl? l = some d) :
    readOutside l = { scope := .outside, found := [.constDecl d] } := by
  unfold readOutside
  dsimp only
  rw [if_neg hl.not_passedOver, hm, hu, h]

theorem readOutside_of_structHeader? {d : StructDecl} (hm : moduleName? l = none)
    (hu : useDecl? l = none) (hk : constDecl? l = none) (h : structHeader? l = some d) :
    readOutside l =
      if isClosed (braceBalance l) (l.contains '{') then
        { scope := .outside, found := [.structDecl d] }
      else { scope := .inStruct d (braceBalance l) (l.contains '{') } := by
  unfold readOutside
  dsimp only
  rw [if_neg hl.not_passedOver, hm, hu, hk, h]

theorem readOutside_of_functionStart? (hm : moduleName? l = none) (hu : useDecl? l = none)
    (hk : constDecl? l = none) (hs : structHeader? l = none)
    (h : (functionStart? l).isSome = true) :
    readOutside l = readFunctionLine l := by
  unfold readOutside
  dsimp only
  rw [if_neg hl.not_passedOver, hm, hu, hk, hs]
  exact if_pos h

end

/-- A line that is no declaration is passed over. -/
theorem readOutside_of_none {l : List Char} (hm : moduleName? l = none) (hu : useDecl? l = none)
    (hk : constDecl? l = none) (hb : opensBlock l = false) :
    readOutside l = { scope := .outside } := by
  obtain ⟨hparts, hf⟩ := Bool.or_eq_false_iff.1 hb
  have hs : structHeader? l = none := by
    rw [structHeader?, Option.isSome_eq_false_iff.1 hparts |> Option.isNone_iff_eq_none.1]
    rfl
  unfold readOutside
  dsimp only
  rw [hm, hu, hk, hs, hf]
  split <;> rfl

/-! ## Module, uses and constants -/

theorem readOutside_module {name : String} (hne : name ≠ "")
    (hname : name.toList.all isNamePart = true) :
    readOutside ("module " ++ name ++ " \x7b").toList =
      { scope := .outside, found := [.moduleName name] } := by
  have hform : ("module " ++ name ++ " \x7b").toList =
      "module ".toList ++ (name.toList ++ [' ', '{']) := by simp
  have hne : name.toList ≠ [] := fun h => hne (String.toList_eq_nil_iff.1 h)
  have hpart := List.all_eq_true.1 hname
  have hsep : ∀ c ∈ name.toList, c ≠ ':' ∧ c ≠ '.' := by
    intro c hc
    constructor <;> rintro rfl <;> exact absurd (hpart _ hc) (by decide)
  have hpath : ∀ c ∈ name.toList, isModulePart c = true := by
    intro c hc
    have := hpart c hc
    simp only [isNamePart, isModulePart, Bool.or_eq_true] at this ⊢
    exact .inl (.inl this)
  obtain ⟨ht, hd⟩ := takeWhile_append (s := [' ', '{']) hpath (stops_cons rfl)
  have hkey :
      keyword? "module".toList (trimStart ("module ".toList ++ (name.toList ++ [' ', '{']))) =
        some (name.toList ++ [' ', '{']) := congrArg some (trimStart_of_namePart hne hname _)
  have hmodule : modulePath? ("module ".toList ++ (name.toList ++ [' ', '{'])) =
      some name.toList := by
    simp only [modulePath?, hkey, ht, hd, bind, Option.bind_some, if_neg hne]
    rfl
  have hsplit : name.toList.splitOnP (fun c => c == ':' || c == '.') = [name.toList] :=
    List.splitOnP_eq_singleton fun c hc => by simpa using hsep c hc
  rw [hform]
  refine readOutside_of_moduleName? ⟨'m', rfl, rfl, by decide⟩ ?_
  simp only [moduleName?, hmodule, bind, Option.bind_some, hsplit]
  simp [hne]

theorem readOutside_use {d : UseDecl} (hd : d.Legible) :
    readOutside ("use " ++ d.path ++ ";").toList =
      { scope := .outside, found := [.useDecl d] } := by
  obtain ⟨⟨⟨hne, htrim⟩, -⟩, hsemi⟩ := hd
  have hform : ("use " ++ d.path ++ ";").toList =
      'u' :: 's' :: 'e' :: ' ' :: (d.path.toList ++ [';']) := by simp
  have ht : trim (' ' :: (d.path.toList ++ [';'])) = d.path.toList ++ [';'] :=
    (IsTrimmed.concat ⟨hne, htrim⟩ rfl).2
  have hlead : (' ' :: (d.path.toList ++ [';'])).takeWhile isBlank ≠ [] := by
    simp [show isBlank ' ' = true from rfl]
  rw [hform]
  refine readOutside_of_useDecl? ⟨'u', rfl, rfl, by decide⟩ rfl ?_
  have hprefix :
      afterPrefix? "use".toList
          (trimStart ('u' :: 's' :: 'e' :: ' ' :: (d.path.toList ++ [';']))) =
        some (' ' :: (d.path.toList ++ [';'])) := rfl
  simp only [useDecl?, hprefix, bind, Option.bind_some, if_neg hlead, ht, List.getLast?_concat,
    if_pos, List.dropLast_concat, (trim_eq_self_iff.1 htrim).2, if_neg hne]
  simp [hsemi]

theorem readOutside_const {d : ConstDecl} (hd : d.Legible) :
    readOutside ("const " ++ d.name ++ ": " ++ d.constType ++ " = " ++ d.value ++ ";").toList =
      { scope := .outside, found := [.constDecl d] } := by
  obtain ⟨hname, ⟨htype, -⟩, hequals, hvalue, hline⟩ := hd
  let value := ' ' :: (d.value.toList ++ [';'])
  let given := ' ' :: (d.constType.toList ++ [' '])
  let afterName := ':' :: (given ++ '=' :: value)
  have hform : ("const " ++ d.name ++ ": " ++ d.constType ++ " = " ++ d.value ++ ";").toList =
      "const ".toList ++ (d.name.toList ++ afterName) := by simp [afterName, given, value]
  have hkey :
      keyword? "const".toList (trimStart ("const ".toList ++ (d.name.toList ++ afterName))) =
        some (d.name.toList ++ afterName) :=
    congrArg some (trimStart_of_namePart hname.ne_nil hname.2 _)
  have hfirst : name? (d.name.toList ++ afterName) = some (d.name.toList, afterName) :=
    hname.name?_append (stops_cons rfl)
  have hmark : mark? ':' afterName = some (given ++ '=' :: value) := mark?_cons rfl _
  obtain ⟨htake, hdrop⟩ : (given ++ '=' :: value).takeWhile (· ≠ '=') = given ∧
      (given ++ '=' :: value).dropWhile (· ≠ '=') = '=' :: value := by
    refine takeWhile_append ?_ (stops_cons rfl)
    intro c hc
    have : c ≠ '=' := by
      rintro rfl
      simp [given, hequals] at hc
    simpa using this
  have hgiven : trim given = d.constType.toList := (trim_append (by decide) _).trans htype.2
  have hequal : afterPrefix? ['='] ('=' :: value) = some value := rfl
  have hclosed : closedValue? ';' value = some d.value.toList :=
    hvalue.closedValue?_append rfl hline
  rw [hform]
  refine readOutside_of_constDecl? ⟨'c', rfl, rfl, by decide⟩ rfl rfl ?_
  simp only [constDecl?, hkey, hfirst, hmark, htake, hdrop, hgiven, hequal, hclosed, bind,
    Option.bind_some, if_neg htype.1, String.ofList_toList]

end Listing

end PseudoMove
