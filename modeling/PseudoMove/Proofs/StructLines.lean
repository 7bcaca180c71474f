import PseudoMove.Proofs.DeclarationLines
import PseudoMove.Source
import Mathlib.Data.List.DropRight

/-!
# Lines of structs

A struct is read back from the lines it is written on: its header
(`structHeader?_append`), its fields one by one (`readLine_field`) and the brace at its
end (`readLine_closeStruct`).  A field never begins a block, whatever its name is, because
no keyword goes up to a colon (`opensBlock_name`).
-/

namespace PseudoMove

open Text PseudoMove.Bracket Listing

/-- A field that keeps to its line. -/
structure Field.Legible (f : Field) : Prop where
  name : IsIdentifier f.name.toList
  fieldType : IsEntry f.fieldType
  braces : IsBraceless f.fieldType.toList
  comma : f.fieldType.toList.getLast? ≠ some ','

instance (f : Field) : Decidable f.Legible :=
  decidable_of_iff (_ ∧ _ ∧ _ ∧ _)
    ⟨fun ⟨h1, h2, h3, h4⟩ => ⟨h1, h2, h3, h4⟩, fun ⟨h1, h2, h3, h4⟩ => ⟨h1, h2, h3, h4⟩⟩

/-- A text without brackets and commas. -/
def Listing.IsPlain (s : List Char) : Prop :=
  ∀ c ∈ s, isOpening c = false ∧ isClosing c = false ∧ c ≠ ','

instance (s : List Char) : Decidable (IsPlain s) := List.decidableBAll _ s

theorem Listing.isPlain_of_namePart {s : List Char} (hs : s.all isNamePart = true) : IsPlain s := by
  intro c hc
  have hpart := List.all_eq_true.1 hs c hc
  have hne {d : Char} (hd : isNamePart d = false) : (c == d) = false :=
    beq_eq_false_iff_ne.2 (ne_of_isNamePart hpart hd)
  refine ⟨?_, ?_, ne_of_isNamePart hpart rfl⟩
  · rw [isOpening, hne rfl, hne rfl, hne rfl, hne rfl]
    rfl
  · rw [isClosing, hne rfl, hne rfl, hne rfl, hne rfl]
    rfl

theorem Listing.IsPlain.isItem {s : List Char} (hs : IsPlain s) : IsItem s :=
  depthThrough?_of_plain fun c hc => by simpa using hs c hc

/-- A struct whose type parameters are words or phrases. -/
structure StructDecl.Legible (d : StructDecl) : Prop where
  name : IsIdentifier d.name.toList
  typeParameters : ∀ p ∈ d.typeParameters, IsEntry p ∧ IsPlain p.toList
  abilities : d.abilities.Nodup
  fields : ∀ f ∈ d.fields, f.Legible

instance (d : StructDecl) : Decidable d.Legible :=
  decidable_of_iff (_ ∧ _ ∧ _ ∧ _)
    ⟨fun ⟨h1, h2, h3, h4⟩ => ⟨h1, h2, h3, h4⟩, fun ⟨h1, h2, h3, h4⟩ => ⟨h1, h2, h3, h4⟩⟩

namespace Listing

/-! ## Abilities -/

/-- The names of abilities, joined by commas. -/
def abilityText (as : List Ability) : List Char := [',', ' '].intercalate (as.map (·.name.toList))

theorem splitOn_intercalate {s : List Char} {ss : List (List Char)} (h : ∀ x ∈ s :: ss, ',' ∉ x) :
    ([',', ' '].intercalate (s :: ss)).splitOn ',' = s :: ss.map (' ' :: ·) := by
  have hjoin : ∀ (s : List Char) (ss : List (List Char)),
      [',', ' '].intercalate (s :: ss) = [','].intercalate (s :: ss.map (' ' :: ·)) := by
    intro s ss
    induction ss generalizing s with
    | nil => simp
    | cons x ss ih =>
      rw [List.map_cons, List.intercalate_cons_cons, List.intercalate_cons_cons, ih]
      cases ss <;> simp [List.intercalate_cons_cons]
  rw [hjoin]
  refine List.splitOn_intercalate ',' ?_ (by simp)
  intro x hx
  rcases List.mem_cons.1 hx with rfl | hx
  · exact h x List.mem_cons_self
  · obtain ⟨y, hy, rfl⟩ := List.mem_map.1 hx
    simpa using h y (List.mem_cons_of_mem _ hy)

theorem foldl_add {as bs : List Ability} (h : (bs ++ as).Nodup) :
    as.foldl Ability.add bs = bs ++ as := by
  induction as generalizing bs with
  | nil => simp
  | cons a as ih =>
    have hnew : a ∉ bs := by
      rw [List.nodup_append] at h
      exact fun ha => h.2.2 a ha a List.mem_cons_self rfl
    rw [List.foldl_cons, Ability.add, if_neg hnew, ih (by simpa using h)]
    simp

/-- The abilities are those that were written. -/
theorem ofWords_abilityText {as : List Ability} (has : as.Nodup) :
    Ability.ofWords ((abilityText as).splitOn ',') = as := by
  have hcomma : ∀ x ∈ as.map (·.name.toList), ',' ∉ x := by
    intro x hx
    obtain ⟨a, -, rfl⟩ := List.mem_map.1 hx
    cases a <;> decide
  have hword : ∀ a : Ability, Ability.ofWord? a.name.toList = some a := by
    intro a
    cases a <;> decide
  have hwords : ((abilityText as).splitOn ',').filterMap Ability.ofWord? = as := by
    cases as with
    | nil => decide
    | cons a as =>
      have hrest : (Ability.ofWord? ∘ (' ' :: ·)) ∘ (·.name.toList) = some := by
        funext b
        have hspace : trim (' ' :: b.name.toList) = trim b.name.toList := rfl
        rw [← hword b]
        simp only [Function.comp_apply, Ability.ofWord?, hspace]
      rw [abilityText, List.map_cons, splitOn_intercalate hcomma,
        List.filterMap_cons_some (hword a), List.filterMap_map, List.filterMap_map, hrest,
        List.filterMap_some]
  rw [Ability.ofWords, hwords]
  exact foldl_add has

theorem isAbilityPart_of_mem {as : List Ability} :
    ∀ c ∈ abilityText as, isAbilityPart c = true := by
  refine forall_mem_intercalate (List.all_eq_true.1 (by decide)) ?_
  intro s hs
  obtain ⟨a, -, rfl⟩ := List.mem_map.1 hs
  cases a <;> exact List.all_eq_true.1 (by decide)

theorem isTrimmed_abilityText {as : List Ability} (has : as ≠ []) : IsTrimmed (abilityText as) := by
  obtain ⟨a, as, rfl⟩ := List.exists_cons_of_ne_nil has
  have hnames : ∀ x ∈ (a :: as).map (·.name.toList), IsTrimmed x := by
    intro x hx
    obtain ⟨b, -, rfl⟩ := List.mem_map.1 hx
    cases b <;> exact ⟨by decide, by decide⟩
  exact isTrimmed_intercalate _ hnames

/-- Reads the abilities of a struct header, behind its name and its type parameters. -/
def abilities? (s : List Char) : Option (List Char) :=
  match afterPrefix? "has".toList (trimStart s) with
  | some r => abilityList? r
  | none => if endsHeader (trimStart s) then some [] else none

/-- The abilities of a struct, with the word before them. -/
def abilityClause (as : List Ability) : List Char :=
  if as = [] then [] else " has ".toList ++ abilityText as

theorem abilities?_abilityClause (as : List Ability) {s : List Char} (hs : onOneLine s = true) :
    abilities? (abilityClause as ++ ' ' :: '{' :: s) = some (abilityText as) := by
  by_cases has : as = []
  · subst has
    exact if_pos hs
  · have ht := isTrimmed_abilityText has
    have hparts : ∀ c ∈ abilityText as ++ [' '], isAbilityPart c = true := by
      intro c hc
      rcases List.mem_append.1 hc with hc | hc
      · exact isAbilityPart_of_mem c hc
      · obtain rfl := List.mem_singleton.1 hc
        decide
    obtain ⟨htake, hdrop⟩ := takeWhile_append (s := '{' :: s) hparts (stops_cons rfl)
    have hrest : abilityText as ++ ' ' :: '{' :: s = (abilityText as ++ [' ']) ++ '{' :: s := by
      simp
    have hstart : trimStart (' ' :: (abilityText as ++ ' ' :: '{' :: s)) =
        (abilityText as ++ [' ']) ++ '{' :: s := by
      rw [← hrest]
      exact ht.trimStart_append _
    have hlead : (' ' :: (abilityText as ++ ' ' :: '{' :: s)).takeWhile isBlank ≠ [] := by
      simp [show isBlank ' ' = true from rfl]
    have hend : trimEnd (abilityText as ++ [' ']) = abilityText as := by
      rw [Listing.trimEnd_append (by decide), (trim_eq_self_iff.1 ht.2).2]
    have hheader : endsHeader ('{' :: s) = true := hs
    rw [abilityClause, if_neg has]
    show abilityList? (' ' :: (abilityText as ++ ' ' :: '{' :: s)) = _
    simp only [abilityList?, hstart, htake, hdrop, hend, hheader, hlead]
    simp

/-! ## Headers -/

theorem structTail?_of_blank {s : List Char} (hs : (trimStart s).head? ≠ some '<') :
    structTail? s = (abilities? s).map (none, ·) := by
  have hagain : trimStart (trimStart s) = trimStart s := List.dropWhile_idempotent _ _
  unfold structTail? abilities?
  dsimp only
  split
  · next r hr => exact absurd (congrArg List.head? hr) hs
  · simp only [bind, Option.bind_some, hagain]
    cases afterPrefix? "has".toList (trimStart s) with
    | some r => rfl
    | none => dsimp only; split <;> rfl

theorem structTail?_of_angle {q : List Char} (hq : '>' ∉ q) (s : List Char) :
    structTail? ('<' :: (q ++ '>' :: s)) = (abilities? s).map (some q, ·) := by
  have hnot : ∀ c ∈ q, decide (c ≠ '>') = true := by
    intro c hc
    simpa using fun h : c = '>' => hq (h ▸ hc)
  obtain ⟨htake, hdrop⟩ := takeWhile_append (s := '>' :: s) hnot (stops_cons rfl)
  have hstart : trimStart ('<' :: (q ++ '>' :: s)) = '<' :: (q ++ '>' :: s) := rfl
  unfold structTail? abilities?
  simp only [hstart, htake, hdrop, bind, Option.bind_some]
  cases afterPrefix? "has".toList (trimStart s) with
  | some r => rfl
  | none => dsimp only; split <;> rfl

theorem toList_typeParameterList (ps : List String) :
    (Source.typeParameterList ps).toList =
      if ps = [] then [] else '<' :: ([',', ' '].intercalate (ps.map String.toList) ++ ['>']) := by
  unfold Source.typeParameterList
  split
  · rfl
  · simp [String.toList_intercalate]

/-- The type parameters of a struct, as far as its header tells them. -/
theorem structTail?_append {ps : List String} (hps : ∀ p ∈ ps, '>' ∉ p.toList) (as : List Ability)
    {s : List Char} (hs : onOneLine s = true) :
    structTail? ((Source.typeParameterList ps).toList ++ (abilityClause as ++ ' ' :: '{' :: s)) =
      some (if ps = [] then none else some ([',', ' '].intercalate (ps.map String.toList)),
        abilityText as) := by
  rw [toList_typeParameterList]
  by_cases hnil : ps = []
  · have hplain : (trimStart (abilityClause as ++ ' ' :: '{' :: s)).head? ≠ some '<' := by
      unfold abilityClause
      split
      · exact fun h => absurd (Option.some.inj h) (by decide)
      · exact fun h => absurd (Option.some.inj h) (by decide)
    rw [if_pos hnil, if_pos hnil, List.nil_append, structTail?_of_blank hplain,
      abilities?_abilityClause as hs]
    rfl
  · have hq : '>' ∉ [',', ' '].intercalate (ps.map String.toList) := by
      refine fun h => forall_mem_intercalate (p := (· ≠ '>')) (by simp) ?_ _ h rfl
      rintro _ hmem c hc rfl
      obtain ⟨p, hp, rfl⟩ := List.mem_map.1 hmem
      exact hps p hp hc
    rw [if_neg hnil, if_neg hnil, List.cons_append, List.append_assoc, List.singleton_append,
      structTail?_of_angle hq, abilities?_abilityClause as hs]
    rfl

theorem toList_structHeader (d : StructDecl) :
    (Source.structHeader d).toList = "struct ".toList ++
      (d.name.toList ++
        ((Source.typeParameterList d.typeParameters).toList ++ abilityClause d.abilities)) := by
  unfold Source.structHeader abilityClause
  by_cases h : d.abilities = []
  · simp [h]
  · simp [h, abilityText, String.toList_intercalate, Function.comp_def]

/-- A struct header is read back, with whatever follows its brace on the line. -/
theorem structHeader?_append {d : StructDecl} (hd : d.Legible) {s : List Char}
    (hs : onOneLine s = true) :
    structHeader? ((Source.structHeader d).toList ++ ' ' :: '{' :: s) =
      some { d with fields := [] } := by
  let tail :=
    (Source.typeParameterList d.typeParameters).toList ++
      (abilityClause d.abilities ++ ' ' :: '{' :: s)
  have hform : (Source.structHeader d).toList ++ ' ' :: '{' :: s =
      "struct ".toList ++ (d.name.toList ++ tail) := by
    simp [toList_structHeader, tail]
  have hstops : Stops isNamePart tail := by
    unfold tail
    rw [toList_typeParameterList]
    unfold abilityClause
    split
    · split <;> exact stops_cons rfl
    · exact stops_cons rfl
  have hname : name? (d.name.toList ++ tail) = some (d.name.toList, tail) :=
    hd.name.name?_append hstops
  have hkey : keyword? "struct".toList ("struct ".toList ++ (d.name.toList ++ tail)) =
      some (d.name.toList ++ tail) :=
    congrArg some (trimStart_of_namePart hd.name.ne_nil hd.name.2 _)
  have hangle : ∀ p ∈ d.typeParameters, '>' ∉ p.toList := by
    intro p hp hmem
    exact absurd ((hd.typeParameters p hp).2 _ hmem).2.1 (by decide)
  have htail := structTail?_append hangle d.abilities hs
  have hpublic :
      (keyword? "public".toList (trimStart ("struct ".toList ++ (d.name.toList ++ tail)))).getD
          (trimStart ("struct ".toList ++ (d.name.toList ++ tail))) =
        "struct ".toList ++ (d.name.toList ++ tail) := rfl
  have hitems : ∀ x ∈ d.typeParameters.map String.toList, IsTrimmed x ∧ IsItem x := by
    intro x hx
    obtain ⟨p, hp, rfl⟩ := List.mem_map.1 hx
    obtain ⟨hentry, hplain⟩ := hd.typeParameters p hp
    exact ⟨hentry.1, hplain.isItem⟩
  have hparts : structParts? ("struct ".toList ++ (d.name.toList ++ tail)) =
      some (d.name.toList, if d.typeParameters = [] then none
        else some ([',', ' '].intercalate (d.typeParameters.map String.toList)),
          abilityText d.abilities) := by
    simp only [structParts?, hpublic, hkey, hname, bind, Option.bind_some]
    rw [htail]
  rw [hform]
  simp only [structHeader?, hparts, bind, Option.bind_some, ofWords_abilityText hd.abilities,
    String.ofList_toList]
  by_cases hnil : d.typeParameters = []
  · simp [hnil]
  · simp only [if_neg hnil, splitOutside_intercalate hitems, List.map_map, Function.comp_def,
      String.ofList_toList, List.map_id']

/-! ### The characters of a header -/

section

variable {P : Char → Prop} (hname : ∀ c, isNamePart c = true → P c)

theorem forall_mem_typeParameterList {ps : List String} (hfixed : ∀ c ∈ [' ', ',', '<', '>'], P c)
    (hps : ∀ p ∈ ps, ∀ c ∈ p.toList, P c) : ∀ c ∈ (Source.typeParameterList ps).toList, P c := by
  have hlist : ∀ c ∈ [',', ' '].intercalate (ps.map String.toList), P c := by
    have hcomma : ∀ c ∈ [',', ' '], P c := by
      simpa using ⟨hfixed ',' (by simp), hfixed ' ' (by simp)⟩
    refine forall_mem_intercalate hcomma fun s hs => ?_
    obtain ⟨p, hp, rfl⟩ := List.mem_map.1 hs
    exact hps p hp
  rw [toList_typeParameterList]
  split
  · simp
  · intro c hc
    rw [List.mem_cons, List.mem_append, List.mem_singleton] at hc
    rcases hc with rfl | hc | rfl
    · exact hfixed _ (by decide)
    · exact hlist c hc
    · exact hfixed _ (by decide)

include hname

/-- What holds of the characters of names, of those between them and of those of the type parameters
holds of every character of a struct header. -/
theorem forall_mem_structHeader {d : StructDecl} (hd : d.Legible)
    (hfixed : ∀ c ∈ [' ', ',', '<', '>'], P c) (hps : ∀ p ∈ d.typeParameters, ∀ c ∈ p.toList, P c) :
    ∀ c ∈ (Source.structHeader d).toList, P c := by
  have hability : ∀ c ∈ abilityClause d.abilities, P c := by
    unfold abilityClause
    split
    · simp
    · refine List.forall_mem_append.2 ⟨forall_mem_of_word hname hfixed (by decide), ?_⟩
      refine forall_mem_intercalate (forall_mem_of_word hname hfixed (by decide)) fun s hs => ?_
      refine forall_mem_of_word hname hfixed ?_
      obtain ⟨a, -, rfl⟩ := List.mem_map.1 hs
      cases a <;> decide
  rw [toList_structHeader]
  refine List.forall_mem_append.2
    ⟨forall_mem_of_word hname hfixed (by decide), List.forall_mem_append.2 ⟨?_, ?_⟩⟩
  · exact fun c hc => hname c (List.all_eq_true.1 hd.name.2 c hc)
  · exact List.forall_mem_append.2 ⟨forall_mem_typeParameterList hfixed hps, hability⟩

end

theorem isBraceless_structHeader {d : StructDecl} (hd : d.Legible) :
    IsBraceless (Source.structHeader d).toList := by
  refine forall_mem_structHeader (fun c hc => ⟨ne_of_isNamePart hc rfl, ne_of_isNamePart hc rfl⟩) hd
    (by simp) ?_
  intro p hp c hc
  have := (hd.typeParameters p hp).2 c hc
  constructor <;> rintro rfl
  · exact absurd this.1 (by decide)
  · exact absurd this.2.1 (by decide)

theorem newline_notMem_structHeader {d : StructDecl} (hd : d.Legible) :
    '\n' ∉ (Source.structHeader d).toList := by
  intro hmem
  refine forall_mem_structHeader (P := (· ≠ '\n')) (fun c hc => ne_of_isNamePart hc rfl) hd
    (by simp) ?_ _ hmem rfl
  rintro p hp _ hc rfl
  exact (hd.typeParameters p hp).1.2 hc

/-! ### Opening a block -/

/-- A struct header is read outside all blocks. -/
theorem readOutside_structHeader {d : StructDecl} (hd : d.Legible) {s : List Char}
    (hs : onOneLine s = true) :
    readOutside ((Source.structHeader d).toList ++ ' ' :: '{' :: s) =
      if isClosed (1 + braceBalance s) true then
        { scope := .outside, found := [.structDecl { d with fields := [] }] }
      else { scope := .inStruct { d with fields := [] } (1 + braceBalance s) true } := by
  have hbalance : braceBalance ((Source.structHeader d).toList ++ ' ' :: '{' :: s) =
      1 + braceBalance s := by
    have hopen : braceBalance (' ' :: '{' :: s) = 1 + braceBalance s :=
      braceBalance_append [' ', '{'] s
    rw [braceBalance_append, (isBraceless_structHeader hd).balance, hopen, Int.zero_add]
  have hopened : ((Source.structHeader d).toList ++ ' ' :: '{' :: s).contains '{' = true := by simp
  have hform : (Source.structHeader d).toList ++ ' ' :: '{' :: s =
      "struct ".toList ++ (d.name.toList ++
        ((Source.typeParameterList d.typeParameters).toList ++ abilityClause d.abilities) ++
          ' ' :: '{' :: s) := by
    rw [toList_structHeader, List.append_assoc]
  have htried : IsTried ((Source.structHeader d).toList ++ ' ' :: '{' :: s) := by
    rw [hform]
    exact ⟨'s', rfl, rfl, by decide⟩
  have hmodule : moduleName? ((Source.structHeader d).toList ++ ' ' :: '{' :: s) = none := by
    rw [hform]
    rfl
  have huse : useDecl? ((Source.structHeader d).toList ++ ' ' :: '{' :: s) = none := by
    rw [hform]
    rfl
  have hconst : constDecl? ((Source.structHeader d).toList ++ ' ' :: '{' :: s) = none := by
    rw [hform]
    rfl
  rw [readOutside_of_structHeader? htried hmodule huse hconst (structHeader?_append hd hs),
    hbalance, hopened]

/-- A struct without fields is read from one line. -/
theorem readOutside_emptyStruct {d : StructDecl} (hd : d.Legible) :
    readOutside (Source.structHeader d ++ " \x7b\x7d").toList =
      { scope := .outside, found := [.structDecl { d with fields := [] }] } := by
  rw [String.toList_append]
  exact readOutside_structHeader hd (s := ['}']) rfl

/-- A struct with fields is left open by its header. -/
theorem readOutside_openStruct {d : StructDecl} (hd : d.Legible) :
    readOutside (Source.structHeader d ++ " \x7b").toList =
      { scope := .inStruct { d with fields := [] } 1 true } := by
  rw [String.toList_append]
  exact readOutside_structHeader hd (s := []) rfl

/-! ## Fields -/

theorem afterModifiers_of_none {s : List Char} (h : modifier? s = none) :
    afterModifiers s = [] := by
  rw [afterModifiers]
  split
  · rfl
  · next r hr => exact absurd (hr.symm.trans h) (by simp)

theorem afterModifiers_of_some {s r : List Char} (h : modifier? s = some r) :
    afterModifiers s = r :: afterModifiers r := by
  rw [afterModifiers]
  split
  · next hr => exact absurd (hr.symm.trans h) (by simp)
  · next q hq => rw [Option.some.inj (hq.symm.trans h)]

/-- A line without a struct's parts that begins neither with a modifier nor with
`fun` opens no block. -/
theorem opensBlock_of_none {l : List Char} (hs : structParts? l = none)
    (hm : modifier? (trimStart l) = none) (hf : keyword? "fun".toList (trimStart l) = none) :
    opensBlock l = false := by
  simp only [opensBlock, functionStart?, hs,
    afterModifiers_of_none hm, hf, Option.bind_none, Option.map_none,
    List.reverse_nil, List.findSome?_nil, Option.or_none, Option.isSome_none, Bool.or_false]

/-- No keyword ends inside a name or at a colon. -/
theorem afterPrefix?_name {word n s r : List Char} (hword : word.all isNamePart = true)
    (hn : n.all isNamePart = true) (h : afterPrefix? word (n ++ ':' :: s) = some r) :
    ∃ c t, r = c :: t ∧ (isNamePart c = true ∨ c = ':') := by
  rcases List.append_eq_append_iff.1 (afterPrefix?_eq_some_iff.1 h).symm with ⟨m, rfl, rfl⟩ |
    ⟨m, rfl, hm⟩
  · cases m with
    | nil => exact ⟨':', s, rfl, .inr rfl⟩
    | cons c m => exact ⟨c, _, rfl, .inl (List.all_eq_true.1 hn c (by simp))⟩
  · cases m with
    | nil => exact ⟨':', s, hm.symm, .inr rfl⟩
    | cons c m =>
      obtain rfl := (List.cons.inj hm).1
      exact absurd (List.all_eq_true.1 hword ':' (by simp)) (by decide)

section

variable {n s : List Char} (hn : n.all isNamePart = true)
include hn

theorem keyword?_name {word : List Char} (hword : word.all isNamePart = true) :
    keyword? word (n ++ ':' :: s) = none := by
  unfold keyword?
  split
  · next c r h =>
    obtain ⟨d, t, heq, hd⟩ := afterPrefix?_name hword hn h
    obtain rfl := (List.cons.inj heq).1
    refine if_neg ?_
    rcases hd with hd | rfl
    · simp [isBlank_of_isNamePart hd]
    · decide
  · rfl

theorem modifier?_name : modifier? (n ++ ':' :: s) = none := by
  have hscoped : scopedModifier? (n ++ ':' :: s) = none := by
    unfold scopedModifier?
    cases h : afterPrefix? "public".toList (n ++ ':' :: s) with
    | none => rfl
    | some r =>
      obtain ⟨d, t, rfl, hd⟩ := afterPrefix?_name (by decide) hn h
      have hmark : mark? '(' (d :: t) = none := by
        rcases hd with hd | rfl
        · have hstart : trimStart (d :: t) = d :: t :=
            trimStart_eq_self_iff.2 (stops_cons (isBlank_of_isNamePart hd))
          rw [mark?, hstart]
          refine if_neg ?_
          rintro rfl
          exact absurd hd (by decide)
        · rfl
      simp [scope?, hmark]
  have hplain : plainModifiers.findSome? (fun w => keyword? w.toList (n ++ ':' :: s)) = none := by
    refine List.findSome?_eq_none_iff.2 fun w hw => keyword?_name hn ?_
    revert w
    decide
  rw [modifier?, hscoped, hplain]
  rfl

theorem opensBlock_name : opensBlock (n ++ ':' :: s) = false := by
  have hstart : trimStart (n ++ ':' :: s) = n ++ ':' :: s := by
    cases n with
    | nil => rfl
    | cons c n => exact trimStart_of_namePart (by simp) hn _
  have hpublic : keyword? "public".toList (n ++ ':' :: s) = none := keyword?_name hn (by decide)
  have hstruct : keyword? "struct".toList (n ++ ':' :: s) = none := keyword?_name hn (by decide)
  have hfun : keyword? "fun".toList (n ++ ':' :: s) = none := keyword?_name hn (by decide)
  refine opensBlock_of_none ?_ ?_ ?_
  · simp only [structParts?, hstart, hpublic, Option.getD_none, hstruct, bind, Option.bind_none]
  · rw [hstart, modifier?_name hn]
  · rw [hstart, hfun]

end

/-- A field is read back from its line, and the struct stays open. -/
theorem readLine_field {f : Field} (hf : f.Legible) (d : StructDecl) (n : Nat) :
    readLine (.inStruct d 1 true)
      (List.replicate n ' ' ++ (f.name ++ ": " ++ f.fieldType ++ ",").toList) =
        { scope := .inStruct { d with fields := d.fields ++ [f] } 1 true } := by
  obtain ⟨hname, ⟨htype, hline⟩, hbraces, hcomma⟩ := hf
  let value := ' ' :: (f.fieldType.toList ++ [','])
  have hform : (f.name ++ ": " ++ f.fieldType ++ ",").toList = f.name.toList ++ ':' :: value := by
    simp [value]
  have hopens : opensBlock (List.replicate n ' ' ++ (f.name.toList ++ ':' :: value)) = false := by
    rw [opensBlock_indent, opensBlock_name hname.2]
  have hbalance : braceBalance (List.replicate n ' ' ++ (f.name.toList ++ ':' :: value)) = 0 := by
    have hends : IsBraceless (f.name.toList ++ ([':', ' '] ++ (f.fieldType.toList ++ [',']))) :=
      (isBraceless_of_namePart hname.2).append (.append (by decide) (hbraces.append (by decide)))
    rw [braceBalance_indent]
    exact hends.balance
  have hfield : field? (List.replicate n ' ' ++ (f.name.toList ++ ':' :: value)) = some f := by
    have hstart := trimStart_of_namePart hname.ne_nil hname.2 (':' :: value)
    have hfirst : name? (f.name.toList ++ ':' :: value) = some (f.name.toList, ':' :: value) :=
      hname.name?_append (stops_cons rfl)
    have hmark : mark? ':' (':' :: value) = some value := mark?_cons rfl _
    have hclosed : closedValue? ',' value = some f.fieldType.toList :=
      htype.closedValue?_append rfl hline
    have hcommas : dropEndWhile (· == ',') f.fieldType.toList = f.fieldType.toList := by
      refine dropEndWhile_eq_self_iff.2 fun c hc => ?_
      rw [beq_eq_false_iff_ne]
      rintro rfl
      exact hcomma hc
    rw [field?_indent]
    simp only [field?, hstart, hfirst, hmark, hclosed, bind, Option.bind_some, htype.2, hcommas,
      if_neg htype.1, String.ofList_toList]
  rw [hform, readLine, if_neg (by simp [hopens])]
  simp [readInStruct, hbalance, hfield]

theorem opensBlock_close (n : Nat) : opensBlock (List.replicate n ' ' ++ ['}']) = false := by
  rw [opensBlock_indent]
  exact opensBlock_of_none rfl rfl rfl

/-- The closing brace of a struct ends it. -/
theorem readLine_closeStruct (d : StructDecl) (n : Nat) :
    readLine (.inStruct d 1 true) (List.replicate n ' ' ++ ['}']) =
      { scope := .outside, found := [.structDecl d] } := by
  have hbalance : braceBalance (List.replicate n ' ' ++ ['}']) = -1 := braceBalance_indent n _
  have hfield : field? (List.replicate n ' ' ++ [' ']) = none := field?_indent n _
  rw [readLine, if_neg (by simp [opensBlock_close])]
  simp [readInStruct, hbalance, hfield, isClosed]

end Listing

end PseudoMove
