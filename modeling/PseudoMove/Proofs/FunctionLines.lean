import PseudoMove.Proofs.StructLines

/-!
# Lines of functions

A function header is read back from its line (`functionHeader?_append`) and opens a block
(`readOutside_functionHeader`).  Its modifiers end where `fun` stands, whatever the name behind it
is (`functionStart?_append`); the brackets around its type parameters and its parameters enclose all
that was written between them.
-/

namespace PseudoMove

open Text PseudoMove.Bracket Listing

/-- A type that can stand in the list of a function's parameters or type parameters. -/
def Listing.IsListType (s : String) : Prop := IsEntry s ∧ IsItem s.toList ∧ IsBraceless s.toList

instance (s : String) : Decidable (IsListType s) := inferInstanceAs (Decidable (_ ∧ _))

/-- A parameter that can be found in a list. -/
structure Parameter.Legible (p : Parameter) : Prop where
  name : IsIdentifier p.name.toList
  paramType : IsListType p.paramType

instance (p : Parameter) : Decidable p.Legible :=
  decidable_of_iff (_ ∧ _) ⟨fun ⟨h1, h2⟩ => ⟨h1, h2⟩, fun ⟨h1, h2⟩ => ⟨h1, h2⟩⟩

/-- A header of a function that can be taken apart. The return type may be empty. -/
structure FunctionHeader.Legible (h : FunctionHeader) : Prop where
  name : IsIdentifier h.name.toList
  keyword : h.name ∉ otherKeywords
  typeParameters : ∀ p ∈ h.typeParameters, IsListType p
  parameters : ∀ p ∈ h.parameters, p.Legible
  returnType : trim h.returnType.toList = h.returnType.toList
  newline : '\n' ∉ h.returnType.toList
  braces : IsBraceless h.returnType.toList
  acquires : occursIn " acquires ".toList (' ' :: h.returnType.toList) = false

instance (h : FunctionHeader) : Decidable h.Legible :=
  decidable_of_iff (_ ∧ _ ∧ _ ∧ _ ∧ _ ∧ _ ∧ _ ∧ _)
    ⟨fun ⟨h1, h2, h3, h4, h5, h6, h7, h8⟩ => ⟨h1, h2, h3, h4, h5, h6, h7, h8⟩,
      fun ⟨h1, h2, h3, h4, h5, h6, h7, h8⟩ => ⟨h1, h2, h3, h4, h5, h6, h7, h8⟩⟩

namespace Listing

/-! ## Modifiers and name -/

/-- A function header begins with its modifiers and its name. -/
theorem functionStart?_append (v : Visibility) {n s : List Char} (hn : IsIdentifier n)
    (hs : Stops isNamePart s) :
    functionStart? (v.keyword.toList ++ ("fun ".toList ++ (n ++ s))) =
      some (v.keyword.toList, n, s) := by
  let tail := "fun ".toList ++ (n ++ s)
  have hname : (keyword? "fun".toList tail).bind name? = some (n, s) := by
    have hkey : keyword? "fun".toList tail = some (n ++ s) :=
      congrArg some (trimStart_of_namePart hn.ne_nil hn.2 s)
    rw [hkey]
    exact hn.name?_append hs
  have hstart : trimStart (v.keyword.toList ++ tail) = v.keyword.toList ++ tail := by
    cases v <;> rfl
  have hfun : afterModifiers tail = [] := afterModifiers_of_none rfl
  -- the last of the modifiers stands before `fun`
  have hlast : v = .privateOnly ∨ ∃ rs, afterModifiers (v.keyword.toList ++ tail) =
      rs ++ [tail] := by
    cases v with
    | publicOnly =>
      exact .inr ⟨[], by rw [afterModifiers_of_some (r := tail) rfl, hfun, List.nil_append]⟩
    | publicEntry =>
      refine .inr ⟨["entry ".toList ++ tail], ?_⟩
      rw [afterModifiers_of_some (r := "entry ".toList ++ tail) rfl,
        afterModifiers_of_some (r := tail) rfl, hfun, List.singleton_append]
    | entryOnly =>
      exact .inr ⟨[], by rw [afterModifiers_of_some (r := tail) rfl, hfun, List.nil_append]⟩
    | friendOnly =>
      exact .inr ⟨[], by rw [afterModifiers_of_some (r := tail) rfl, hfun, List.nil_append]⟩
    | privateOnly => exact .inl rfl
  unfold functionStart?
  dsimp only
  rw [hstart]
  rcases hlast with rfl | ⟨rs, hrs⟩
  · rw [show afterModifiers (Visibility.privateOnly.keyword.toList ++ tail) = [] from hfun]
    show ((keyword? "fun".toList tail).bind name?).map _ = _
    rw [hname]
    rfl
  · have htake : (v.keyword.toList ++ tail).take ((v.keyword.toList ++ tail).length - tail.length) =
        v.keyword.toList := by
      simp
    rw [hrs, List.reverse_append, List.reverse_singleton, List.singleton_append]
    simp only [List.findSome?_cons, functionName?, hname, Option.some_or, Option.map_some, htake]

theorem ofModifiers_keyword (v : Visibility) :
    Visibility.ofModifiers (modifierWords v.keyword.toList) = v := by
  cases v <;> decide

/-! ## Lists -/

theorem typeParameters?_append {ps : List String} (hps : ∀ p ∈ ps, IsListType p) (s : List Char) :
    typeParameters? ((Source.typeParameterList ps).toList ++ '(' :: s) =
      some (ps.map String.toList, '(' :: s) := by
  have hitems : ∀ x ∈ ps.map String.toList, IsTrimmed x ∧ IsItem x := by
    intro x hx
    obtain ⟨p, hp, rfl⟩ := List.mem_map.1 hx
    exact ⟨(hps p hp).1.1, (hps p hp).2.1⟩
  rw [toList_typeParameterList]
  by_cases hnil : ps = []
  · subst hnil
    rfl
  · have henclosed := enclosed?_of_balanced (isBalanced_intercalate fun x hx => (hitems x hx).2)
      (show isOpening '>' = false from rfl) rfl ('(' :: s)
    rw [if_neg hnil, List.cons_append, List.append_assoc, List.singleton_append]
    show (enclosed? _).map _ = _
    rw [henclosed, Option.map_some, splitOutside_intercalate hitems]
    rfl

/-- A parameter as it is written. -/
def parameterText (p : Parameter) : List Char := p.name.toList ++ ':' :: ' ' :: p.paramType.toList

theorem parameter_parameterText {p : Parameter} (hp : p.Legible) (i : Nat) :
    parameter i (parameterText p) = p := by
  have hpart := List.all_eq_true.1 hp.name.2
  have hcolon : ∀ c ∈ p.name.toList, decide (c ≠ ':') = true := by
    intro c hc
    rw [decide_eq_true_eq]
    exact ne_of_isNamePart (hpart c hc) rfl
  have hangle : '<' ∉ p.name.toList := fun h => ne_of_isNamePart (hpart _ h) rfl rfl
  have hname : trim p.name.toList = p.name.toList := hp.name.isTrimmed.2
  have htype : trim (' ' :: p.paramType.toList) = p.paramType.toList := hp.paramType.1.1.2
  obtain ⟨htake, hdrop⟩ :=
    takeWhile_append (s := ':' :: ' ' :: p.paramType.toList) hcolon (stops_cons rfl)
  unfold parameter parameterText
  simp only [htake, hdrop, hname, htype, String.ofList_toList]
  exact if_pos ⟨hp.name.ne_nil, by simp [hangle]⟩

/-- A parameter is an item of the list it is written in. -/
theorem isItem_parameterText {p : Parameter} (hp : p.Legible) :
    IsTrimmed (parameterText p) ∧ IsItem (parameterText p) := by
  have hform : parameterText p = p.name.toList ++ [':', ' '] ++ p.paramType.toList := by
    simp [parameterText]
  have hname : IsItem p.name.toList := (isPlain_of_namePart hp.name.2).isItem
  obtain ⟨hentry, hitem, -⟩ := hp.paramType
  rw [hform]
  exact ⟨hp.name.isTrimmed.append hentry.1 _, (hname.append (by decide)).append hitem⟩

theorem mapIdx_parameter {ps : List Parameter} (hps : ∀ p ∈ ps, p.Legible) :
    (ps.map parameterText).mapIdx parameter = ps := by
  refine List.ext_getElem (by simp) fun i h1 h2 => ?_
  rw [List.getElem_mapIdx, List.getElem_map]
  exact parameter_parameterText (hps _ (List.getElem_mem h2)) i

/-- The parameters are read back from their list. -/
theorem splitOutside_parameters {ps : List Parameter} (hps : ∀ p ∈ ps, p.Legible) :
    (splitOutside ',' ([',', ' '].intercalate (ps.map parameterText))).mapIdx parameter = ps := by
  have hitems : ∀ x ∈ ps.map parameterText, IsTrimmed x ∧ IsItem x := by
    intro x hx
    obtain ⟨p, hp, rfl⟩ := List.mem_map.1 hx
    exact isItem_parameterText (hps p hp)
  rw [splitOutside_intercalate hitems, mapIdx_parameter hps]

/-! ## Return types -/

theorem before_of_not_occursIn {pat s : List Char} (h : occursIn pat s = false) :
    before pat s = s := by
  induction s with
  | nil => rfl
  | cons c s ih =>
    rw [occursIn, Bool.or_eq_false_iff] at h
    rw [before, if_neg (by simp [h.1]), ih h.2]

/-- What is written of a return type, with the colon before it. -/
def returnClause (h : FunctionHeader) : List Char :=
  if h.returnsUnit then [] else ':' :: ' ' :: h.returnType.toList

/-- The header with an empty return type for unit. -/
def unitAsEmpty (h : FunctionHeader) : FunctionHeader :=
  { h with returnType := if h.returnsUnit then "" else h.returnType }

/-- A return type is read back from a function header, with the brace behind it. -/
theorem returnType_returnClause {h : FunctionHeader} (hh : h.Legible) :
    String.ofList (returnType (returnClause h ++ [' ', '{'])) = (unitAsEmpty h).returnType := by
  unfold returnClause unitAsEmpty
  by_cases hunit : h.returnsUnit = true
  · rw [if_pos hunit, if_pos hunit]
    exact (by decide : String.ofList (returnType [' ', '{']) = "")
  · have hne : h.returnType.toList ≠ [] := by
      intro hnil
      refine hunit ?_
      unfold FunctionHeader.returnsUnit
      rw [String.toList_eq_nil_iff.1 hnil]
      decide
    have hclause : IsTrimmed (':' :: ' ' :: h.returnType.toList) :=
      IsTrimmed.append (s := [':']) (by decide) ⟨hne, hh.returnType⟩ [' ']
    have hline : trim (':' :: ' ' :: h.returnType.toList ++ [' ', '{']) =
        ':' :: ' ' :: h.returnType.toList ++ [' ', '{'] := by
      have := (hclause.append (t := ['{']) (by decide) [' ']).2
      rwa [List.append_assoc] at this
    rw [if_neg hunit, if_neg hunit, returnType, hline]
    have hbrace : dropEndWhile (fun c => c == '{' || c == ';')
        (':' :: ' ' :: h.returnType.toList ++ [' ', '{']) =
          ':' :: ' ' :: h.returnType.toList ++ [' '] := by
      simp [dropEndWhile]
    rw [hbrace, trim_append (by decide), hclause.2]
    show String.ofList (trim (before " acquires ".toList (' ' :: h.returnType.toList))) =
      h.returnType
    rw [before_of_not_occursIn hh.acquires]
    show String.ofList (trim h.returnType.toList) = h.returnType
    rw [hh.returnType, String.ofList_toList]

/-! ## Headers -/

theorem toList_functionHeader {h : FunctionHeader} (hh : h.Legible) :
    (Source.functionHeader h).toList =
      h.visibility.keyword.toList ++ ("fun ".toList ++ (h.name.toList ++
      ((Source.typeParameterList h.typeParameters).toList ++
        '(' :: ([',', ' '].intercalate (h.parameters.map parameterText) ++ ')' ::
          returnClause h)))) := by
  have htrimmed : trimmed h.returnType = h.returnType := by
    rw [trimmed, hh.returnType, String.ofList_toList]
  have hparams : (String.toList ∘ fun p : Parameter => p.name ++ ": " ++ p.paramType) =
      parameterText := by
    funext p
    simp [parameterText]
  unfold Source.functionHeader returnClause
  rw [htrimmed]
  by_cases hunit : h.returnsUnit = true
  · simp [hunit, String.toList_intercalate, hparams]
  · simp [hunit, String.toList_intercalate, hparams]

/-- A function header is read back from its line. -/
theorem functionHeader?_append {h : FunctionHeader} (hh : h.Legible) :
    functionHeader? ((Source.functionHeader h).toList ++ [' ', '{']) =
      some { toFunctionHeader := unitAsEmpty h } := by
  let params := [',', ' '].intercalate (h.parameters.map parameterText)
  let tail := (Source.typeParameterList h.typeParameters).toList ++
    '(' :: (params ++ ')' :: (returnClause h ++ [' ', '{']))
  have hform : (Source.functionHeader h).toList ++ [' ', '{'] =
      h.visibility.keyword.toList ++ ("fun ".toList ++ (h.name.toList ++ tail)) := by
    simp [toList_functionHeader hh, tail, params]
  have hstops : Stops isNamePart tail := by
    unfold tail
    rw [toList_typeParameterList]
    split <;> exact stops_cons rfl
  have hstart := functionStart?_append h.visibility hh.name hstops
  have htypes :=
    typeParameters?_append hh.typeParameters (params ++ ')' :: (returnClause h ++ [' ', '{']))
  have hparen : afterPrefix? ['('] ('(' :: (params ++ ')' :: (returnClause h ++ [' ', '{']))) =
      some (params ++ ')' :: (returnClause h ++ [' ', '{'])) := rfl
  have hparams : enclosed? (params ++ ')' :: (returnClause h ++ [' ', '{'])) =
      some (params, returnClause h ++ [' ', '{']) := by
    refine enclosed?_of_balanced (isBalanced_intercalate fun x hx => ?_) rfl rfl _
    obtain ⟨p, hp, rfl⟩ := List.mem_map.1 hx
    exact (isItem_parameterText (hh.parameters p hp)).2
  rw [hform]
  simp only [functionHeader?, hstart, if_neg hh.keyword, tail, htypes, hparen, hparams, bind,
    Option.bind_some, ofModifiers_keyword, String.ofList_toList, params,
    splitOutside_parameters hh.parameters, returnType_returnClause hh, List.map_map,
    Function.comp_def, List.map_id']
  rfl

/-- What holds of the characters of names, of those between them and of those of all types holds of
every character of a function header. -/
theorem forall_mem_functionHeader {P : Char → Prop} (hname : ∀ c, isNamePart c = true → P c)
    {h : FunctionHeader} (hh : h.Legible) (hfixed : ∀ c ∈ [' ', ',', '<', '>', '(', ')', ':'], P c)
    (htypes : ∀ p ∈ h.typeParameters, ∀ c ∈ p.toList, P c)
    (hparams : ∀ p ∈ h.parameters, ∀ c ∈ p.paramType.toList, P c)
    (hreturn : ∀ c ∈ h.returnType.toList, P c) :
    ∀ c ∈ (Source.functionHeader h).toList, P c := by
  have hkeyword : ∀ c ∈ h.visibility.keyword.toList, P c := by
    refine forall_mem_of_word hname hfixed ?_
    cases h.visibility <;> decide
  have hfun : ∀ c ∈ "fun ".toList, P c := forall_mem_of_word hname hfixed (by decide)
  have hlist : ∀ c ∈ [',', ' '].intercalate (h.parameters.map parameterText), P c := by
    refine forall_mem_intercalate (forall_mem_of_word hname hfixed (by decide)) fun s hs => ?_
    obtain ⟨p, hp, rfl⟩ := List.mem_map.1 hs
    refine List.forall_mem_append.2
      ⟨fun c hc => hname c ?_, List.forall_mem_cons.2 ⟨hfixed _ (by decide), ?_⟩⟩
    · exact List.all_eq_true.1 (hh.parameters p hp).name.2 c hc
    · exact List.forall_mem_cons.2 ⟨hfixed _ (by decide), hparams p hp⟩
  have hclause : ∀ c ∈ returnClause h, P c := by
    unfold returnClause
    split
    · simp
    · exact List.forall_mem_cons.2
        ⟨hfixed _ (by decide), List.forall_mem_cons.2 ⟨hfixed _ (by decide), hreturn⟩⟩
  rw [toList_functionHeader hh]
  refine List.forall_mem_append.2 ⟨hkeyword, List.forall_mem_append.2 ⟨hfun, ?_⟩⟩
  refine List.forall_mem_append.2 ⟨fun c hc => hname c (List.all_eq_true.1 hh.name.2 c hc), ?_⟩
  refine List.forall_mem_append.2
    ⟨forall_mem_typeParameterList (fun c hc => hfixed c ?_) htypes, ?_⟩
  · exact List.mem_append_left ['(', ')', ':'] hc
  · refine List.forall_mem_cons.2 ⟨hfixed _ (by decide), List.forall_mem_append.2 ⟨hlist, ?_⟩⟩
    exact List.forall_mem_cons.2 ⟨hfixed _ (by decide), hclause⟩

theorem isBraceless_functionHeader {h : FunctionHeader} (hh : h.Legible) :
    IsBraceless (Source.functionHeader h).toList :=
  forall_mem_functionHeader (fun c hc => ⟨ne_of_isNamePart hc rfl, ne_of_isNamePart hc rfl⟩) hh
    (by simp) (fun p hp => (hh.typeParameters p hp).2.2)
    (fun p hp => (hh.parameters p hp).paramType.2.2) hh.braces

theorem newline_notMem_functionHeader {h : FunctionHeader} (hh : h.Legible) :
    '\n' ∉ (Source.functionHeader h).toList := by
  have hne : ∀ {s : List Char}, '\n' ∉ s → ∀ c ∈ s, c ≠ '\n' := fun hs c hc e => hs (e ▸ hc)
  intro hmem
  exact forall_mem_functionHeader (P := (· ≠ '\n')) (fun c hc => ne_of_isNamePart hc rfl) hh
    (by simp) (fun p hp => hne (hh.typeParameters p hp).1.2)
    (fun p hp => hne (hh.parameters p hp).paramType.1.2) (hne hh.newline) _ hmem rfl

/-- A function header opens a block. -/
theorem readOutside_functionHeader {h : FunctionHeader} (hh : h.Legible) :
    readOutside (Source.functionHeader h ++ " \x7b").toList =
      { scope := .inFunction { toFunctionHeader := unitAsEmpty h } [] 1 true } := by
  have hbalance : braceBalance ((Source.functionHeader h).toList ++ [' ', '{']) = 1 := by
    rw [braceBalance_append, (isBraceless_functionHeader hh).balance]
    rfl
  have hread := functionHeader?_append hh
  have hstart :
      (functionStart? ((Source.functionHeader h).toList ++ [' ', '{'])).isSome = true := by
    cases hs : functionStart? ((Source.functionHeader h).toList ++ [' ', '{']) with
    | none => simp [functionHeader?, hs] at hread
    | some p => rfl
  have hline : readFunctionLine ((Source.functionHeader h).toList ++ [' ', '{']) =
      { scope := .inFunction { toFunctionHeader := unitAsEmpty h } [] 1 true } := by
    simp [readFunctionLine, hread, hbalance, isClosed]
  -- a function header begins like none of the other declarations
  obtain ⟨s, hform⟩ : ∃ s, (Source.functionHeader h).toList ++ [' ', '{'] =
      h.visibility.keyword.toList ++ ("fun ".toList ++ s) := by
    rw [toList_functionHeader hh]
    exact ⟨_, by rw [List.append_assoc, List.append_assoc]⟩
  have htext : (Source.functionHeader h ++ " \x7b").toList =
      (Source.functionHeader h).toList ++ [' ', '{'] := String.toList_append ..
  rw [htext]
  rw [hform] at hstart hline ⊢
  refine (readOutside_of_functionStart? ?_ ?_ ?_ ?_ ?_ hstart).trans hline
  · cases h.visibility <;> exact ⟨_, rfl, by decide, by decide⟩
  all_goals cases h.visibility <;> rfl

/-! ## Statements -/

theorem trim_ne_nil_of_startsInstruction {l : List Char} (h : startsInstruction l = true) :
    trim l ≠ [] := by
  intro hblank
  have hstart : trimStart l = [] := List.dropWhile_eq_nil_iff.2 (trim_eq_nil_iff.1 hblank)
  rw [startsInstruction, hstart] at h
  exact absurd h (by decide)

/-- A statement whose braces balance stays in the body of its function, unless it is blank. -/
theorem readLine_statement (b : FunctionListing) (body : List String) {l : List Char}
    (hopens : opensBlock l = false) (hbalance : braceBalance l = 0) :
    readLine (.inFunction b body 1 true) l =
      { scope :=
          .inFunction b (if trim l = [] then body else String.ofList l :: body) 1 true } := by
  rw [readLine, if_neg (by simp [hopens]), readInFunction]
  by_cases hstarts : startsInstruction l = true
  · rw [if_pos hstarts, if_neg (trim_ne_nil_of_startsInstruction hstarts)]
  · rw [if_neg hstarts]
    by_cases hblank : trim l = [] <;> simp [hbalance, hblank, isClosed]

/-- The closing brace of a function ends it. -/
theorem readLine_closeFunction (b : FunctionListing) (body : List String) (n : Nat) :
    readLine (.inFunction b body 1 true) (List.replicate n ' ' ++ ['}']) =
      { scope := .outside, found := [.function (finished b body)] } := by
  have hbalance : braceBalance (List.replicate n ' ' ++ ['}']) = -1 := braceBalance_indent n _
  have hstarts : startsInstruction (List.replicate n ' ' ++ ['}']) = false := by
    rw [startsInstruction, trimStart_indent]
    rfl
  rw [readLine, if_neg (by simp [opensBlock_close])]
  simp [readInFunction, hstarts, hbalance, isClosed]

end Listing

end PseudoMove
