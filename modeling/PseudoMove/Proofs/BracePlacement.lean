import PseudoMove.Proofs.LineByLine
import PseudoMove.Proofs.LineTexts
import PseudoMove.Proofs.TrailingReturn

/-!
# Where the braces of a struct stand

The same struct can be written with its braces on lines of their own or beside what they enclose
(`StructLayout`).  A brace behind a header changes nothing in how the header is read
(`structHeader?_append_brace`), and one beside a field nothing in how the field is read
(`readInStruct_fieldLine`), as long as the braces of the line do not balance.

* `StructLayout.declarations_text` — what is read of a struct, for every layout;
* `StructLayout.read_text_iff` — the struct is read as it was written unless the layout hides a
  part of it (`StructLayout.hides`): a field behind a brace that ends the header, or both
  braces on a line of their own.
-/

namespace PseudoMove.Listing

open Text

/-! ## A brace behind what is read -/

section

variable {c : Char} (s t : List Char)

theorem takeWhile_append_cons {p : Char → Bool} (hc : p c = false) :
    (s ++ c :: t).takeWhile p = s.takeWhile p := by
  induction s with
  | nil => simp [hc]
  | cons d s ih => by_cases hd : p d = true <;> simp [hd, ih]

theorem dropWhile_append_cons {p : Char → Bool} (hc : p c = false) :
    (s ++ c :: t).dropWhile p = s.dropWhile p ++ c :: t := by
  induction s with
  | nil => simp [hc]
  | cons d s ih => by_cases hd : p d = true <;> simp [hd, ih]

theorem trimStart_append_cons (hc : isBlank c = false) :
    trimStart (s ++ c :: t) = trimStart s ++ c :: t :=
  dropWhile_append_cons s t hc

theorem afterPrefix?_append_cons {word : List Char} (hc : c ∉ word) :
    afterPrefix? word (s ++ c :: t) = (afterPrefix? word s).map (· ++ c :: t) := by
  induction word generalizing s with
  | nil => rfl
  | cons d word ih =>
    rw [List.mem_cons, not_or] at hc
    cases s with
    | nil => simp [afterPrefix?, Ne.symm hc.1]
    | cons e s =>
      rw [List.cons_append, afterPrefix?, afterPrefix?, ih s hc.2]
      split <;> rfl

theorem keyword?_append_cons {word : List Char} (hc : c ∉ word) (hblank : isBlank c = false) :
    keyword? word (s ++ c :: t) = (keyword? word s).map (· ++ c :: t) := by
  unfold keyword?
  rw [afterPrefix?_append_cons s t hc]
  cases h : afterPrefix? word s with
  | none => rfl
  | some r =>
    cases r with
    | nil => simp [hblank]
    | cons d r => by_cases hd : isBlank d = true <;> simp [hd, trimStart_append_cons r t hblank]

theorem name?_append_cons (hc : isNamePart c = false) :
    name? (s ++ c :: t) = (name? s).map fun p => (p.1, p.2 ++ c :: t) := by
  cases s with
  | nil =>
    have hstart : isNameStart c = false := by
      by_contra h
      rw [isNamePart_of_isNameStart (by simpa using h)] at hc
      simp at hc
    simp [name?, hstart]
  | cons d s =>
    have ht := takeWhile_append_cons (d :: s) t hc
    have hd := dropWhile_append_cons (d :: s) t hc
    rw [List.cons_append] at ht hd ⊢
    rw [name?, name?, ht, hd]
    split <;> rfl

end

section

variable {s t : List Char} (hs : IsBraceless s) (ht : onOneLine t = true)
include hs ht

theorem endsHeader_append_brace : endsHeader (s ++ '{' :: t) = endsHeader s := by
  cases s with
  | nil => exact ht
  | cons c s =>
    have hc : c ≠ '{' := (hs c List.mem_cons_self).1
    have hfalse : ∀ u, endsHeader (c :: u) = false := by
      intro u
      unfold endsHeader
      split
      · next h => simp at h
      · next h => exact absurd (List.cons.inj h).1 hc
      · rfl
    rw [List.cons_append, hfalse, hfalse]

theorem abilityList?_append_brace : abilityList? (s ++ '{' :: t) = abilityList? s := by
  have hstart := trimStart_append_cons (c := '{') s t (by decide)
  have hrest : IsBraceless ((trimStart s).dropWhile isAbilityPart) := fun c hc =>
    hs c ((List.dropWhile_suffix _).subset ((List.dropWhile_suffix _).subset hc))
  unfold abilityList?
  dsimp only
  rw [hstart, takeWhile_append_cons s t (by decide), takeWhile_append_cons _ t (by decide),
    dropWhile_append_cons _ t (by decide), endsHeader_append_brace hrest ht]

theorem abilities?_append_brace : abilities? (s ++ '{' :: t) = abilities? s := by
  have hstart : IsBraceless (trimStart s) := fun c hc => hs c ((List.dropWhile_suffix _).subset hc)
  unfold abilities?
  rw [trimStart_append_cons s t (by decide), afterPrefix?_append_cons _ t (by decide)]
  cases h : afterPrefix? "has".toList (trimStart s) with
  | none => simp [endsHeader_append_brace hstart ht]
  | some r =>
    have hr : IsBraceless r := fun c hc => hstart c (by simp [afterPrefix?_eq_some_iff.1 h, hc])
    exact abilityList?_append_brace hr ht

/-- An angle bracket that opens type parameters has to be closed before the brace. -/
theorem structTail?_append_brace
    (hangle : (trimStart s).head? = some '<' → (structTail? s).isSome = true) :
    structTail? (s ++ '{' :: t) = structTail? s := by
  have hstart := trimStart_append_cons (c := '{') s t (by decide)
  by_cases h : (trimStart s).head? = some '<'
  · obtain ⟨r, hr⟩ := List.head?_eq_some_iff.1 h
    have hclose : '>' ∈ r := by
      by_contra hnot
      have hnil : r.dropWhile (· ≠ '>') = [] := by
        refine List.dropWhile_eq_nil_iff.2 fun c hc => ?_
        rw [decide_eq_true_eq]
        rintro rfl
        exact hnot hc
      have hsome := hangle h
      rw [structTail?, hr] at hsome
      simp only [hnil, bind, Option.bind_none] at hsome
      simp at hsome
    obtain ⟨q, u, rfl, hq⟩ := List.eq_append_cons_of_mem hclose
    have hu : IsBraceless u := by
      intro c hc
      refine hs c ((List.dropWhile_suffix isBlank).subset ?_)
      rw [show s.dropWhile isBlank = _ from hr]
      simp [hc]
    rw [← structTail?_trimStart s, ← structTail?_trimStart (s ++ _), hstart, hr,
      structTail?_of_angle hq, List.cons_append, List.append_assoc, List.cons_append,
      structTail?_of_angle hq, abilities?_append_brace hu ht]
  · have hmore : (trimStart (s ++ '{' :: t)).head? ≠ some '<' := by
      rw [hstart]
      cases hnil : trimStart s with
      | nil => simp
      | cons c u => simpa [hnil] using h
    rw [structTail?_of_blank h, structTail?_of_blank hmore, abilities?_append_brace hs ht]

end

/-- The braces after a header take no part in it. -/
theorem structParts?_append_brace {l t : List Char} (hl : IsBraceless l) (ht : onOneLine t = true)
    (h : (structParts? l).isSome = true) : structParts? (l ++ '{' :: t) = structParts? l := by
  obtain ⟨s, n, r, hkey, hname, htail⟩ := isSome_structParts?_iff.1 h
  have hpublic : keyword? "public".toList (trimStart l ++ '{' :: t) =
      (keyword? "public".toList (trimStart l)).map (· ++ '{' :: t) :=
    keyword?_append_cons (trimStart l) t (by decide) (by decide)
  have hmore : (keyword? "public".toList (trimStart l ++ '{' :: t)).getD (trimStart l ++ '{' :: t) =
      (keyword? "public".toList (trimStart l)).getD (trimStart l) ++ '{' :: t := by
    rw [hpublic]
    cases keyword? "public".toList (trimStart l) <;> rfl
  have hr : IsBraceless r := by
    have hpart : (keyword? "public".toList (trimStart l)).getD (trimStart l) <:+ l := by
      cases h : keyword? "public".toList (trimStart l) with
      | none => exact isSuffix_trimStart l
      | some q => exact (isSuffix_of_keyword? h).trans (isSuffix_trimStart l)
    have hsuffix : r <:+ l :=
      (isSuffix_of_name? hname).trans ((isSuffix_of_keyword? hkey).trans hpart)
    exact fun c hc => hl c (hsuffix.subset hc)
  have hangle : (trimStart r).head? = some '<' → (structTail? r).isSome = true := by
    intro hhead
    refine htail.resolve_right fun hshort => ?_
    obtain ⟨u, hu⟩ := List.head?_eq_some_iff.1 hhead
    have hend := (isSome_abilityList?_iff.1 hshort.2).2.1
    rw [hu] at hend
    exact absurd hend (by simp [show isAbilityPart '<' = false from rfl, endsHeader])
  have hkeyword : keyword? "struct".toList
      ((keyword? "public".toList (trimStart l)).getD (trimStart l) ++ '{' :: t) =
        some (s ++ '{' :: t) := by
    rw [keyword?_append_cons _ t (by decide) (by decide), hkey]
    rfl
  have hnames : name? (s ++ '{' :: t) = some (n, r ++ '{' :: t) := by
    rw [name?_append_cons s t (by decide), hname]
    rfl
  unfold structParts?
  simp only [bind, trimStart_append_cons l t (show isBlank '{' = false from rfl),
    hmore, hkeyword, hkey, hnames, hname,
    Option.bind_some, structTail?_append_brace hr ht hangle, abilityList?_append_brace hr ht]

theorem structHeader?_append_brace {l t : List Char} (hl : IsBraceless l) (ht : onOneLine t = true)
    {d : StructDecl} (h : structHeader? l = some d) : structHeader? (l ++ '{' :: t) = some d := by
  have hparts : (structParts? l).isSome = true := by
    obtain ⟨p, hp, -⟩ := Option.bind_eq_some_iff.1 h
    rw [hp]
    rfl
  rw [← h, structHeader?, structParts?_append_brace hl ht hparts, structHeader?]

/-- A struct header tells nothing about fields. -/
theorem fields_of_structHeader? {l : List Char} {d : StructDecl} (h : structHeader? l = some d) :
    d.fields = [] := by
  obtain ⟨p, -, h⟩ := Option.bind_eq_some_iff.1 h
  rw [← Option.some.inj h]

/-- A line that has a struct header is read as nothing else. -/
theorem readOutside_struct {l : List Char} {d : StructDecl} (h : structHeader? l = some d) :
    readOutside l =
      if isClosed (braceBalance l) (l.contains '{') then
        { scope := .outside, found := [.structDecl d] }
      else { scope := .inStruct d (braceBalance l) (l.contains '{') } := by
  obtain ⟨p, hp, -⟩ := Option.bind_eq_some_iff.1 h
  obtain ⟨s, n, r, hkey, -⟩ := isSome_structParts?_iff.1 (Option.isSome_of_eq_some hp)
  have hword : ∃ t, trimStart l = "struct".toList ++ t ∨ trimStart l = "public".toList ++ t := by
    cases hpublic : keyword? "public".toList (trimStart l) with
    | some q =>
      obtain ⟨c, t, ht, -⟩ := keyword?_eq_some_iff.1 hpublic
      exact ⟨c :: t, Or.inr ht⟩
    | none =>
      rw [hpublic, Option.getD_none] at hkey
      obtain ⟨c, t, ht, -⟩ := keyword?_eq_some_iff.1 hkey
      exact ⟨c :: t, Or.inl ht⟩
  obtain ⟨t, ht⟩ := hword
  have hmodule : moduleName? l = none := by
    unfold moduleName? modulePath?
    rcases ht with ht | ht <;> rw [ht] <;> rfl
  have huse : useDecl? l = none := by
    unfold useDecl?
    rcases ht with ht | ht <;> rw [ht] <;> rfl
  have hconst : constDecl? l = none := by
    unfold constDecl?
    rcases ht with ht | ht <;> rw [ht] <;> rfl
  have htried : ¬ (trim l = [] ∨ "//".toList.isPrefixOf (trim l) = true) := by
    have hsame : trim (trimStart l) = trim l := congrArg trimEnd (List.dropWhile_idempotent _ _)
    rw [← hsame]
    rcases ht with ht | ht <;> rw [ht]
    · exact IsTried.not_passedOver ⟨'s', rfl, by decide, by decide⟩
    · exact IsTried.not_passedOver ⟨'p', rfl, by decide, by decide⟩
  unfold readOutside
  dsimp only
  rw [if_neg htried, hmodule, huse, hconst, h]

/-! ## Braces beside a field -/

/-- What may stand beside a field on its line: blanks and braces. -/
def IsEdge (s : List Char) : Prop := ∀ c ∈ s, isBlank c = true ∨ c = '{' ∨ c = '}'

/-- A text with blanks in place of its braces. -/
def unbraced (s : List Char) : List Char := s.map fun c => if c = '{' ∨ c = '}' then ' ' else c

theorem unbraced_of_isBraceless {s : List Char} (hs : IsBraceless s) : unbraced s = s := by
  unfold unbraced
  conv_rhs => rw [← List.map_id s]
  refine List.map_congr_left fun c hc => ?_
  rw [if_neg (by simp [hs c hc])]
  rfl

theorem IsEdge.unbraced {s : List Char} (hs : IsEdge s) : (unbraced s).all isBlank = true := by
  rw [List.all_eq_true]
  intro c hc
  obtain ⟨d, hd, rfl⟩ := List.mem_map.1 hc
  split
  · rfl
  · next h => exact (hs d hd).resolve_right h

theorem opensBlock_brace {c : Char} (hc : c = '{' ∨ c = '}') (l : List Char) :
    opensBlock (c :: l) = false := by
  rcases hc with rfl | rfl <;> exact opensBlock_of_none rfl rfl rfl

/-- Blanks and braces in front of a line do not make it a header. -/
theorem IsEdge.opensBlock_append {b l : List Char} (hb : IsEdge b) (hl : opensBlock l = false) :
    opensBlock (b ++ l) = false := by
  induction b with
  | nil => exact hl
  | cons c b ih =>
    rcases hb c List.mem_cons_self with hc | hc
    · have := opensBlock_blanks (b := [c]) (by simp [hc]) (b ++ l)
      rw [List.singleton_append] at this
      rw [List.cons_append, this]
      exact ih fun d hd => hb d (List.mem_cons_of_mem c hd)
    · exact opensBlock_brace hc _

theorem IsEdge.opensBlock {b : List Char} (hb : IsEdge b) : opensBlock b = false := by
  have := hb.opensBlock_append (l := []) (opensBlock_of_none rfl rfl rfl)
  rwa [List.append_nil] at this

/-- A line in a struct whose braces do not balance: they count, and the field beside them
is read without them. -/
theorem readLine_braced {l : List Char} (hopens : opensBlock l = false)
    (hbalance : braceBalance l ≠ 0) (d : StructDecl) (depth : Int) (opened : Bool) :
    let d' := { d with fields := d.fields ++ (field? (unbraced l)).toList }
    readLine (.inStruct d depth opened) l =
      if isClosed (depth + braceBalance l) (opened || l.contains '{') then
        { scope := .outside, found := [.structDecl d'] }
      else { scope := .inStruct d' (depth + braceBalance l) (opened || l.contains '{') } := by
  intro d'
  have hmap : (l.map fun c => if c = '{' ∨ c = '}' then ' ' else c) = unbraced l := rfl
  rw [readLine, if_neg (by simp [hopens])]
  unfold readInStruct
  cases h : field? (unbraced l) <;> simp [hbalance, hmap, h, d']

/-- A line in a struct whose braces balance: they count for nothing, and the line is read as it
stands. -/
theorem readLine_balanced {l : List Char} (hopens : opensBlock l = false)
    (hbalance : braceBalance l = 0) (d : StructDecl) (depth : Int) (opened : Bool) :
    readLine (.inStruct d depth opened) l =
      { scope := .inStruct { d with fields := d.fields ++ (field? l).toList } depth opened } := by
  rw [readLine, if_neg (by simp [hopens])]
  unfold readInStruct
  cases h : field? l <;> simp [hbalance, h]

/-- A value is read with blanks on both sides, whether the mark stands behind it or not. -/
theorem closedValue?_blanks {v : List Char} (hv : IsTrimmed v)
    (hline : '\n' ∉ v) (hlast : v.getLast? ≠ some ',')
    (mark : Bool) {b e : List Char} (hb : b.all isBlank = true) (he : e.all isBlank = true) :
    closedValue? ',' (b ++ (v ++ (if mark then [','] else []) ++ e)) = some v := by
  have hvalue : IsTrimmed (v ++ if mark then [','] else []) := by
    cases mark with
    | true => exact hv.concat (by decide)
    | false => simpa using hv
  have ht : trim (b ++ (v ++ (if mark then [','] else []) ++ e)) =
      v ++ if mark then [','] else [] := by
    rw [trim, trimStart_append hb, ← trim, trim_append he, hvalue.2]
  have hend : trimEnd v = v := (trim_eq_self_iff.1 hv.2).2
  unfold closedValue?
  rw [ht]
  cases hvm : v ++ (if mark then [','] else []) with
  | nil => exact absurd hvm hvalue.1
  | cons c s =>
    dsimp only
    rw [← hvm]
    cases mark with
    | true => simp [hend, hv.1, onOneLine, hline]
    | false => simp [hlast, hv.1, onOneLine, hline]

end PseudoMove.Listing

namespace PseudoMove

open Text Listing

/-- A text that is a line as it stands. -/
def IsLine (l : List Char) : Prop := '\n' ∉ l ∧ l.getLast? ≠ some '\r'

instance (l : List Char) : Decidable (IsLine l) := inferInstanceAs (Decidable (_ ∧ _))

theorem IsLine.append {s l : List Char} (hs : '\n' ∉ s) (hl : IsLine l) (hne : l ≠ []) :
    IsLine (s ++ l) := by
  refine ⟨by simp [hs, hl.1], ?_⟩
  rw [List.getLast?_append_of_ne_nil s hne]
  exact hl.2

/-- Where the lines of a struct are broken around its braces.  Fields stand one on a line. -/
structure StructLayout where
  /-- The opening brace begins a line, instead of ending the header. -/
  breakBefore : Bool
  /-- What follows the opening brace begins a line. -/
  breakAfter : Bool
  /-- The closing brace begins a line, instead of ending the line of the last field. -/
  breakClosing : Bool
  /-- Fields end with commas. -/
  comma : Bool := true
  /-- The blanks in front of fields and braces. -/
  gap : List Char := []
  isBlank_gap : gap.all isBlank = true := by decide
  newline_gap : '\n' ∉ gap := by decide

namespace StructLayout

variable (L : StructLayout)

theorem isBraceless_gap : IsBraceless L.gap := by
  intro c hc
  have := List.all_eq_true.1 L.isBlank_gap c hc
  constructor <;> rintro rfl <;> simp [isBlank] at this

/-- The line of a field. -/
def fieldLine (f : Field) : List Char :=
  L.gap ++ (f.name.toList ++ ':' :: ' ' :: (f.fieldType.toList ++ if L.comma then [','] else []))

/-! ## The line of a field -/

section

variable {L} {f : Field} (hf : f.Legible)
include hf

theorem isBraceless_fieldLine : IsBraceless (L.fieldLine f) := by
  have hends : IsBraceless (f.fieldType.toList ++ if L.comma then [','] else []) :=
    hf.braces.append (by cases L.comma <;> decide)
  exact L.isBraceless_gap.append
    ((isBraceless_of_namePart hf.name.2).append
      (IsBraceless.append (s := [':', ' ']) (by decide) hends))

theorem isLine_fieldLine : IsLine (L.fieldLine f) ∧ L.fieldLine f ≠ [] := by
  have hname : '\n' ∉ f.name.toList :=
    fun h => absurd (List.all_eq_true.1 hf.name.2 _ h) (by decide)
  have htype : f.fieldType.toList.getLast? ≠ some '\r' := by
    intro h
    have := trimEnd_eq_self_iff.1 (trim_eq_self_iff.1 hf.fieldType.1.2).2 _ h
    exact absurd this (by decide)
  have hvalue : IsLine (f.fieldType.toList ++ if L.comma then [','] else []) := by
    have hline := hf.fieldType.2
    cases L.comma <;> simp [IsLine, hline, htype]
  have hform : L.fieldLine f = (L.gap ++ (f.name.toList ++ [':', ' '])) ++
      (f.fieldType.toList ++ if L.comma then [','] else []) := by simp [fieldLine]
  refine ⟨?_, by simp [fieldLine]⟩
  rw [hform]
  exact IsLine.append (by simp [L.newline_gap, hname]) hvalue (by simp [hf.fieldType.1.1])

theorem opensBlock_fieldLine (s : List Char) : opensBlock (L.fieldLine f ++ s) = false := by
  unfold fieldLine
  rw [List.append_assoc, List.append_assoc, List.cons_append, opensBlock_blanks L.isBlank_gap,
    opensBlock_name hf.name.2]

/-- A field is read from its line, with blanks on both sides. -/
theorem field?_fieldLine {b e : List Char} (hb : b.all isBlank = true) (he : e.all isBlank = true) :
    field? (b ++ L.fieldLine f ++ e) = some f := by
  obtain ⟨hname, ⟨htype, hline⟩, hbraces, hcomma⟩ := hf
  let value := [' '] ++ (f.fieldType.toList ++ (if L.comma then [','] else []) ++ e)
  have hform : b ++ L.fieldLine f ++ e = (b ++ L.gap) ++ (f.name.toList ++ ':' :: value) := by
    simp [fieldLine, value]
  have hblank : (b ++ L.gap).all isBlank = true := by simp [hb, L.isBlank_gap]
  have hstart : trimStart ((b ++ L.gap) ++ (f.name.toList ++ ':' :: value)) =
      f.name.toList ++ ':' :: value := by
    rw [trimStart_append hblank, trimStart_of_namePart hname.ne_nil hname.2]
  have hfirst : name? (f.name.toList ++ ':' :: value) = some (f.name.toList, ':' :: value) :=
    hname.name?_append (stops_cons rfl)
  have hmark : mark? ':' (':' :: value) = some value := mark?_cons rfl _
  have hclosed : closedValue? ',' value = some f.fieldType.toList :=
    closedValue?_blanks htype hline hcomma L.comma (by decide) he
  have hcommas : dropEndWhile (· == ',') f.fieldType.toList = f.fieldType.toList := by
    refine dropEndWhile_eq_self_iff.2 fun c hc => ?_
    rw [beq_eq_false_iff_ne]
    rintro rfl
    exact hcomma hc
  rw [hform]
  simp only [field?, hstart, hfirst, hmark, hclosed, bind, Option.bind_some, htype.2, hcommas,
    if_neg htype.1, String.ofList_toList]

/-- A field is read from its line, with braces beside it that are passed over. -/
theorem field?_unbraced {b e : List Char} (hb : IsEdge b) (he : IsEdge e) :
    field? (unbraced (b ++ L.fieldLine f ++ e)) = some f := by
  have hform : unbraced (b ++ L.fieldLine f ++ e) = unbraced b ++ L.fieldLine f ++ unbraced e := by
    conv_rhs => rw [← unbraced_of_isBraceless (isBraceless_fieldLine hf)]
    simp [unbraced]
  rw [hform, field?_fieldLine hf hb.unbraced he.unbraced]

end

/-! ## The lines of a struct -/

/-- The lines of fields and of the closing brace. -/
def closedLines : List Field → List (List Char)
  | [] => [L.gap ++ ['}']]
  | [f] =>
    if L.breakClosing then [L.fieldLine f, L.gap ++ ['}']] else [L.fieldLine f ++ (L.gap ++ ['}'])]
  | f :: g :: fs => L.fieldLine f :: closedLines (g :: fs)

/-- Puts a text in front of some lines, on a line of its own or not. -/
def inFront (broken : Bool) (s : List Char) (ls : List (List Char)) : List (List Char) :=
  if broken then s :: ls else ls.modifyHead (s ++ ·)

/-- The lines of a struct. Blanks between the header and a brace on its line belong to the
header. -/
def lines (header : List Char) (fs : List Field) : List (List Char) :=
  inFront L.breakBefore header
    (inFront L.breakAfter ((if L.breakBefore then L.gap else []) ++ ['{']) (L.closedLines fs))

/-- The text of a struct. -/
def text (header : List Char) (fs : List Field) : String :=
  String.ofList ((L.lines header fs).flatMap (· ++ ['\n']))

/-- The fields that are read of a struct, if the struct is. -/
def readFields (fs : List Field) : Option (List Field) :=
  if L.breakAfter then some fs
  else if L.breakBefore then if (L.closedLines fs).length = 1 then none else some fs
  else some fs.tail

/-- A part of the struct is hidden: behind a brace that ends the header stands a field, or a line of
its own has both braces. -/
def hides (fs : List Field) : Bool :=
  !L.breakAfter && if L.breakBefore then (L.closedLines fs).length == 1 else !fs.isEmpty

theorem readFields_eq_self_iff {fs : List Field} :
    L.readFields fs = some fs ↔ L.hides fs = false := by
  have htail : fs.tail = fs ↔ fs = [] := by cases fs <;> simp
  unfold readFields hides
  cases L.breakAfter <;> cases L.breakBefore <;> simp [htail]

theorem length_closedLines_pos (fs : List Field) : 0 < (L.closedLines fs).length := by
  fun_induction closedLines L fs <;> simp

/-! ### Reading the lines -/

theorem isEdge_brace {c : Char} (hc : c = '{' ∨ c = '}') : IsEdge (L.gap ++ [c]) := by
  intro d hd
  rcases List.mem_append.1 hd with hd | hd
  · exact Or.inl (List.all_eq_true.1 L.isBlank_gap d hd)
  · rw [List.mem_singleton.1 hd]
    exact Or.inr hc

theorem braceBalance_brace (c : Char) : braceBalance (L.gap ++ [c]) = braceBalance [c] := by
  rw [braceBalance_append, L.isBraceless_gap.balance, Int.zero_add]

/-- A brace alone on its line is no field. -/
theorem field?_of_isEdge {s : List Char} (hs : IsEdge s) : field? (unbraced s) = none := by
  have hnil : trimStart (unbraced s) = [] :=
    List.dropWhile_eq_nil_iff.2 (List.all_eq_true.1 hs.unbraced)
  rw [field?, hnil]
  rfl

section

variable {L} {f : Field} (hf : f.Legible) (d : StructDecl)
include hf

theorem readLine_fieldLine :
    readLine (.inStruct d 1 true) (L.fieldLine f) =
      { scope := .inStruct { d with fields := d.fields ++ [f] } 1 true } := by
  have hopens := opensBlock_fieldLine hf (L := L) []
  have hfield := field?_fieldLine hf (L := L) (b := []) (e := []) rfl rfl
  rw [List.append_nil] at hopens
  rw [List.nil_append, List.append_nil] at hfield
  rw [readLine_balanced hopens (isBraceless_fieldLine hf).balance, hfield]
  rfl

theorem readLine_lastField :
    readLine (.inStruct d 1 true) (L.fieldLine f ++ (L.gap ++ ['}'])) =
      { scope := .outside, found := [.structDecl { d with fields := d.fields ++ [f] }] } := by
  have hbalance : braceBalance (L.fieldLine f ++ (L.gap ++ ['}'])) = -1 := by
    rw [braceBalance_append, (isBraceless_fieldLine hf).balance, braceBalance_brace]
    rfl
  have hfield :=
    field?_unbraced hf (L := L) (b := []) (by simp [IsEdge]) (L.isEdge_brace (Or.inr rfl))
  rw [List.nil_append] at hfield
  rw [readLine_braced (opensBlock_fieldLine hf _) (by omega), hbalance, hfield]
  rfl

/-- The first field behind an opening brace that begins a line. -/
theorem readLine_firstField (hd : d.fields = []) :
    readLine (.inStruct d 0 false) (L.gap ++ ['{'] ++ L.fieldLine f) =
      { scope := .inStruct { d with fields := [f] } 1 true } := by
  have hedge := L.isEdge_brace (Or.inl (rfl : '{' = '{'))
  have hopens := opensBlock_fieldLine hf (L := L) []
  rw [List.append_nil] at hopens
  have hbalance : braceBalance (L.gap ++ ['{'] ++ L.fieldLine f) = 1 := by
    rw [braceBalance_append, (isBraceless_fieldLine hf).balance, braceBalance_brace]
    rfl
  have hfield := field?_unbraced hf (L := L) (e := []) hedge (by simp [IsEdge])
  rw [List.append_nil] at hfield
  have hcontains : (L.gap ++ ['{'] ++ L.fieldLine f).contains '{' = true := by simp
  rw [readLine_braced (hedge.opensBlock_append hopens) (by omega), hbalance, hfield, hcontains, hd]
  rfl

end

theorem readLine_opening (d : StructDecl) :
    readLine (.inStruct d 0 false) (L.gap ++ ['{']) = { scope := .inStruct d 1 true } := by
  have hedge := L.isEdge_brace (Or.inl (rfl : '{' = '{'))
  have hbalance := L.braceBalance_brace '{'
  have hone : braceBalance ['{'] = 1 := rfl
  have hcontains : (L.gap ++ ['{']).contains '{' = true := by simp
  rw [readLine_braced hedge.opensBlock (by omega), hbalance, hone,
    field?_of_isEdge hedge, hcontains]
  simp [isClosed]

theorem readLine_closing (d : StructDecl) :
    readLine (.inStruct d 1 true) (L.gap ++ ['}']) =
      { scope := .outside, found := [.structDecl d] } := by
  have hedge := L.isEdge_brace (Or.inr (rfl : '}' = '}'))
  have hbalance := L.braceBalance_brace '}'
  have hone : braceBalance ['}'] = -1 := rfl
  rw [readLine_braced hedge.opensBlock (by omega), hbalance, hone, field?_of_isEdge hedge]
  simp [isClosed]

/-- Both braces on a line of their own: the struct is never seen to open. -/
theorem readLine_together (d : StructDecl) {s : List Char} (hbalance : braceBalance s = -1) :
    readLine (.inStruct d 0 false) (L.gap ++ ['{'] ++ s) = { scope := .inStruct d 0 false } := by
  have hstart : trimStart (L.gap ++ ['{'] ++ s) = '{' :: s := by
    rw [List.append_assoc, trimStart_append L.isBlank_gap]
    rfl
  have hfield : field? (L.gap ++ ['{'] ++ s) = none := by
    rw [field?, hstart]
    rfl
  have hopens : opensBlock (L.gap ++ ['{'] ++ s) = false := by
    rw [List.append_assoc, opensBlock_blanks L.isBlank_gap]
    exact opensBlock_brace (Or.inl rfl) s
  have hzero : braceBalance (L.gap ++ ['{'] ++ s) = 0 := by
    rw [braceBalance_append, braceBalance_brace, hbalance]
    rfl
  rw [readLine_balanced hopens hzero, hfield]
  simp

/-- From an opened struct on, its fields are found and the struct is closed. -/
theorem foundFrom_closedLines {fs : List Field} (hfs : ∀ f ∈ fs, f.Legible) (d : StructDecl) :
    foundFrom (.inStruct d 1 true) (L.closedLines fs) =
      [.structDecl { d with fields := d.fields ++ fs }] := by
  fun_induction closedLines L fs generalizing d with
  | case1 =>
    rw [foundFrom_cons, readLine_closing]
    simp [foundFrom, readEnd]
  | case2 f hbreak =>
    rw [foundFrom_cons, readLine_fieldLine (hfs f List.mem_cons_self), foundFrom_cons,
      readLine_closing]
    simp [foundFrom, readEnd]
  | case3 f hbreak =>
    rw [foundFrom_cons, readLine_lastField (hfs f List.mem_cons_self)]
    simp [foundFrom, readEnd]
  | case4 f g fs ih =>
    rw [foundFrom_cons, readLine_fieldLine (hfs f List.mem_cons_self)]
    have := ih (fun x hx => hfs x (List.mem_cons_of_mem f hx)) { d with fields := d.fields ++ [f] }
    simpa using this

/-! ### Reading the text -/

/-- A text that is read as the header of the struct `d`: a line without braces. -/
structure IsHeader (header : List Char) (d : StructDecl) : Prop where
  read : structHeader? header = some d
  braces : IsBraceless header
  newline : '\n' ∉ header
  carriageReturn : header.getLast? ≠ some '\r'

section

variable {L} {header : List Char} {d : StructDecl} (hh : IsHeader header d) {fs : List Field}
  (hfs : ∀ f ∈ fs, f.Legible)

include hfs in
theorem isLine_closedLines : ∀ l ∈ L.closedLines fs, IsLine l ∧ l ≠ [] := by
  have hclosing : IsLine (L.gap ++ ['}']) := .append L.newline_gap (by decide) (by decide)
  fun_induction closedLines L fs with
  | case1 => simp [hclosing]
  | case2 f hbreak => simpa [hclosing] using isLine_fieldLine (hfs f List.mem_cons_self)
  | case3 f hbreak =>
    have := (isLine_fieldLine (hfs f List.mem_cons_self) (L := L)).1.1
    simp [IsLine.append this hclosing (by simp)]
  | case4 f g fs ih =>
    have hfirst := isLine_fieldLine (hfs f List.mem_cons_self) (L := L)
    exact List.forall_mem_cons.2 ⟨hfirst, ih fun x hx => hfs x (List.mem_cons_of_mem f hx)⟩

theorem isLine_inFront {broken : Bool} {s : List Char} {ls : List (List Char)} (hs : IsLine s)
    (hne : s ≠ []) (hls : ∀ l ∈ ls, IsLine l ∧ l ≠ []) :
    ∀ l ∈ inFront broken s ls, IsLine l ∧ l ≠ [] := by
  unfold inFront
  cases broken with
  | true => simpa using ⟨⟨hs, hne⟩, fun l hl => hls l hl⟩
  | false =>
    cases ls with
    | nil => simp
    | cons l ls =>
      obtain ⟨hl, hls⟩ := List.forall_mem_cons.1 hls
      simp only [Bool.false_eq_true, if_false, List.modifyHead_cons, List.forall_mem_cons]
      exact ⟨⟨hl.1.append hs.1 hl.2, by simp [hne]⟩, hls⟩

theorem lines_flatMap {ls : List (List Char)} (hls : ∀ l ∈ ls, IsLine l) :
    Text.lines (ls.flatMap (· ++ ['\n'])) = ls := by
  have hsame : ls.map dropReturn = ls :=
    (List.map_congr_left fun l hl => if_neg (hls l hl).2).trans (List.map_id' ls)
  rw [Text.lines_flatMap fun l hl => (hls l hl).1, hsame]

include hh

theorem ne_nil_of_isHeader : header ≠ [] := by
  rintro rfl
  exact absurd hh.read (by simp [show structHeader? [] = none from rfl])

/-- The header is read as such, whatever stands on its line behind an opening brace. -/
theorem readOutside_header {s : List Char} (hs : '\n' ∉ s) :
    readOutside (header ++ '{' :: s) =
      if isClosed (1 + braceBalance s) true then { scope := .outside, found := [.structDecl d] }
      else { scope := .inStruct d (1 + braceBalance s) true } := by
  have hbalance : braceBalance (header ++ '{' :: s) = 1 + braceBalance s := by
    have hopen : braceBalance ('{' :: s) = 1 + braceBalance s := braceBalance_append ['{'] s
    rw [braceBalance_append, hh.braces.balance, hopen, Int.zero_add]
  have hcontains : (header ++ '{' :: s).contains '{' = true := by simp
  rw [readOutside_struct
    (structHeader?_append_brace hh.braces (by simpa [onOneLine] using hs) hh.read),
    hbalance, hcontains]

/-- A header alone on its line leaves the struct unopened. -/
theorem readOutside_bareHeader : readOutside header = { scope := .inStruct d 0 false } := by
  have hcontains : header.contains '{' = false := by
    simpa using fun h => (hh.braces _ h).1 rfl
  rw [readOutside_struct hh.read, hh.braces.balance, hcontains]
  rfl

include hfs

theorem lines_text : Text.lines (L.text header fs).toList = L.lines header fs := by
  have hopening : IsLine ((if L.breakBefore then L.gap else []) ++ ['{']) := by
    refine IsLine.append ?_ (by decide) (by decide)
    cases L.breakBefore <;> simp [L.newline_gap]
  rw [text, String.toList_ofList]
  refine lines_flatMap fun l hl => ?_
  have hheader : IsLine header := ⟨hh.newline, hh.carriageReturn⟩
  exact (isLine_inFront hheader (ne_nil_of_isHeader hh)
    (isLine_inFront hopening (by simp) (isLine_closedLines hfs)) l hl).1

omit hh in
/-- The first line behind the opening brace has the closing brace, too, or it is that of the first
field. -/
theorem closedLines_cases :
    (∃ s, L.closedLines fs = [s] ∧ fs.tail = [] ∧ '\n' ∉ s ∧ braceBalance s = -1) ∨
      ∃ f gs, fs = f :: gs ∧ L.closedLines fs = L.fieldLine f :: L.closedLines gs := by
  have hone : braceBalance (L.gap ++ ['}']) = -1 := L.braceBalance_brace '}'
  fun_cases closedLines L fs with
  | case1 => exact Or.inl ⟨_, rfl, rfl, by simp [L.newline_gap], hone⟩
  | case2 f hbreak => exact Or.inr ⟨f, [], rfl, rfl⟩
  | case3 f hbreak =>
    have hf := hfs f List.mem_cons_self
    refine Or.inl ⟨_, rfl, rfl, by simp [L.newline_gap, (isLine_fieldLine hf).1.1], ?_⟩
    rw [braceBalance_append, (isBraceless_fieldLine hf).balance, hone]
    rfl
  | case4 f g fs => exact Or.inr ⟨f, g :: fs, rfl, rfl⟩

/-- The lines of a struct, read outside all blocks. -/
theorem foundFrom_lines :
    foundFrom .outside (L.lines header fs) =
      (L.readFields fs).toList.map fun gs => .structDecl { d with fields := gs } := by
  have hd := fields_of_structHeader? hh.read
  have hempty : { d with fields := [] } = d := by rw [← hd]
  have hrest : ∀ gs : List Field, (∀ g ∈ gs, g.Legible) → foundFrom (.inStruct d 1 true)
      (L.closedLines gs) = [.structDecl { d with fields := gs }] := by
    intro gs hgs
    rw [L.foundFrom_closedLines hgs, hd, List.nil_append]
  unfold lines readFields inFront
  cases hbefore : L.breakBefore <;> cases hafter : L.breakAfter
  · -- the opening brace ends the header, and something stands behind it
    rcases closedLines_cases hfs (L := L) with ⟨s, hs, htail, hline, hbalance⟩ | ⟨f, gs, rfl, hs⟩
    · rw [hs, htail]
      simp [foundFrom_cons, readLine, readOutside_header hh hline, hbalance, isClosed, foundFrom,
        readEnd, hempty]
    · obtain ⟨hf, hgs⟩ := List.forall_mem_cons.1 hfs
      rw [hs]
      simp [foundFrom_cons, readLine, readOutside_header hh (isLine_fieldLine hf).1.1,
        (isBraceless_fieldLine hf).balance, isClosed, hrest gs hgs]
  · -- the opening brace ends the header and the line
    simp [foundFrom_cons, readLine, readOutside_header hh (s := []), isClosed, hrest fs hfs,
      show braceBalance [] = 0 from rfl]
  · -- the opening brace begins a line, and something stands behind it
    have hheader : readLine .outside header = { scope := .inStruct d 0 false } :=
      readOutside_bareHeader hh
    rcases closedLines_cases hfs (L := L) with ⟨s, hs, htail, hline, hbalance⟩ | ⟨f, gs, rfl, hs⟩
    · rw [hs]
      show foundFrom .outside [header, L.gap ++ ['{'] ++ s] = _
      rw [foundFrom_cons, hheader, foundFrom_cons, L.readLine_together d hbalance]
      rfl
    · obtain ⟨hf, hgs⟩ := List.forall_mem_cons.1 hfs
      have hlong := L.length_closedLines_pos gs
      rw [hs]
      show foundFrom .outside (header :: (L.gap ++ ['{'] ++ L.fieldLine f) :: L.closedLines gs) = _
      rw [foundFrom_cons, hheader, foundFrom_cons, readLine_firstField hf d hd,
        L.foundFrom_closedLines hgs, if_neg (by simp)]
      simp [show (L.closedLines gs).length ≠ 0 by omega]
  · -- the opening brace has a line of its own
    have hheader : readLine .outside header = { scope := .inStruct d 0 false } :=
      readOutside_bareHeader hh
    show foundFrom .outside (header :: (L.gap ++ ['{']) :: L.closedLines fs) = _
    rw [foundFrom_cons, hheader, foundFrom_cons, L.readLine_opening d, hrest fs hfs]
    rfl

/-- **What is read of a struct**, whatever its layout is. -/
theorem declarations_text :
    declarations (L.text header fs) =
      (L.readFields fs).toList.map fun gs => .structDecl { d with fields := gs } := by
  rw [declarations_eq, lines_text hh hfs, foundFrom_lines hh hfs]

/-- **A struct is read as it was written, unless its layout hides a part of it.** -/
theorem read_text_iff :
    Listing.read (L.text header fs) = { structs := [{ d with fields := fs }] } ↔
      L.hides fs = false := by
  have hread : Listing.read (L.text header fs) =
      { structs := (L.readFields fs).toList.map fun gs => { d with fields := gs } } := by
    rw [Listing.read, declarations_text hh hfs]
    cases L.readFields fs <;> rfl
  rw [hread, ← L.readFields_eq_self_iff]
  cases L.readFields fs with
  | none => simp
  | some gs => simp

end

/-- A header with all that a header can have. -/
def poolHeader : String := "public struct Pool<phantom A, B: drop> has key, store"

/-- What it declares. -/
def pool : StructDecl where
  name := "Pool"
  typeParameters := ["phantom A", "B: drop"]
  abilities := [.key, .store]

/-- The fields of a pool. -/
def poolFields : List Field := [⟨"id", "UID"⟩, ⟨"reserve", "Table<address, Balance<B>>"⟩]

/-- Braces at the start of the first and at the end of the last field's line. -/
def tightLayout : StructLayout where
  breakBefore := true
  breakAfter := false
  breakClosing := false
  gap := [' ', ' ']

theorem read_text_pool :
    (IsHeader poolHeader.toList pool ∧ (∀ f ∈ poolFields, f.Legible) ∧
      tightLayout.hides poolFields = false) ∧
    tightLayout.text poolHeader.toList poolFields =
      "public struct Pool<phantom A, B: drop> has key, store\n  \x7b  id: UID,\n  reserve: Table<address, Balance<B>>,  \x7d\n" ∧
    Listing.read (tightLayout.text poolHeader.toList poolFields) =
      { structs := [{ pool with fields := poolFields }] } := by
  have hh : IsHeader poolHeader.toList pool :=
    ⟨by decide +kernel, by decide +kernel, by decide +kernel, by decide +kernel⟩
  have hfs : ∀ f ∈ poolFields, f.Legible := by decide +kernel
  exact ⟨⟨hh, hfs, rfl⟩, by decide +kernel, (read_text_iff hh hfs).2 rfl⟩

/-- Braces together on a line hide the struct, with a field between them or not, and a brace that
ends the header hides the first field. -/
theorem read_text_hidden :
    structHeader? "struct Flag has drop".toList = some { name := "Flag", abilities := [.drop] } ∧
    Listing.read "struct Flag has drop\n\x7b\x7d\n" = {} ∧
    Listing.read "struct Flag has drop\n\x7b set: bool \x7d\n" = {} ∧
    Listing.read "struct Flag has drop \x7b set: bool\n  since: u64\n\x7d\n" =
      { structs := [{ name := "Flag", abilities := [.drop], fields := [⟨"since", "u64"⟩] }] } := by
  decide +kernel

end StructLayout

end PseudoMove
