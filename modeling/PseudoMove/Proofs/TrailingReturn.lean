import PseudoMove.Proofs.StructLines
import Mathlib.Data.List.DropRight

/-!
# A carriage return behind a header

A line that begins a struct or a function still does so with a carriage return at its end
(`opensBlock_append_return`). What is left of such a line to be read gets the carriage return at its
end too, unless nothing is left but blanks.
-/

namespace PseudoMove.Listing

open Text

/-! ## Blanks at the end -/

section

variable {b : List Char} (hb : b.all isBlank = true)
include hb

theorem trimStart_append_blanks (s : List Char) :
    trimStart (s ++ b) = if trimStart s = [] then [] else trimStart s ++ b := by
  unfold trimStart
  rw [List.dropWhile_append]
  by_cases hs : s.dropWhile isBlank = []
  · rw [if_pos (List.isEmpty_iff.2 hs), if_pos hs,
      List.dropWhile_eq_nil_iff.2 (List.all_eq_true.1 hb)]
  · rw [if_neg (mt List.isEmpty_iff.1 hs), if_neg hs]

theorem mark?_append_blanks (m : Char) (s : List Char) :
    mark? m (s ++ b) = (mark? m s).map (· ++ b) := by
  unfold mark?
  rw [trimStart_append_blanks hb s]
  cases trimStart s with
  | nil => rfl
  | cons d r =>
    rw [if_neg (List.cons_ne_nil d r)]
    dsimp only [List.cons_append]
    split <;> rfl

end

/-! ## Keywords, names and marks -/

theorem trimStart_append_return {s : List Char} (hs : trimStart s ≠ []) :
    trimStart (s ++ ['\r']) = trimStart s ++ ['\r'] := by
  rw [trimStart_append_blanks rfl, if_neg hs]

theorem trimStart_append_return_of_nil {s : List Char} (hs : trimStart s = []) :
    trimStart (s ++ ['\r']) = [] := by
  rw [trimStart_append_blanks rfl, if_pos hs]

theorem keyword?_eq_some_iff {word s r : List Char} :
    keyword? word s = some r ↔ ∃ c t, s = word ++ c :: t ∧ isBlank c = true ∧ trimStart t = r := by
  unfold keyword?
  constructor
  · intro h
    split at h
    · next c t ht =>
      split at h
      · next hc => exact ⟨c, t, afterPrefix?_eq_some_iff.1 ht, hc, Option.some.inj h⟩
      · exact absurd h (by simp)
    · exact absurd h (by simp)
  · rintro ⟨c, t, rfl, hc, rfl⟩
    rw [afterPrefix?_eq_some_iff.2 rfl]
    exact if_pos hc

theorem keyword?_append_return {word s r : List Char} (h : keyword? word s = some r) (hr : r ≠ []) :
    keyword? word (s ++ ['\r']) = some (r ++ ['\r']) := by
  obtain ⟨c, t, rfl, hc, rfl⟩ := keyword?_eq_some_iff.1 h
  exact keyword?_eq_some_iff.2 ⟨c, t ++ ['\r'], by simp, hc, trimStart_append_return hr⟩

theorem mark?_append_return {m : Char} {s r : List Char} (h : mark? m s = some r) :
    mark? m (s ++ ['\r']) = some (r ++ ['\r']) := by
  rw [mark?_append_blanks rfl, h, Option.map_some]

theorem name?_eq_some {s n r : List Char} (h : name? s = some (n, r)) :
    s = n ++ r ∧ IsIdentifier n ∧ Stops isNamePart r := by
  unfold name? at h
  split at h
  · exact absurd h (by simp)
  · next c t =>
    split at h
    · next hc =>
      obtain ⟨rfl, rfl⟩ := Prod.mk.inj (Option.some.inj h)
      have hpart := isNamePart_of_isNameStart hc
      refine ⟨List.takeWhile_append_dropWhile.symm, ⟨?_, List.all_takeWhile⟩, ?_⟩
      · rw [List.takeWhile_cons_of_pos hpart]
        simpa using hc
      · intro d hd
        have := List.head?_dropWhile_not isNamePart (c :: t)
        rw [Option.mem_def.1 hd] at this
        simpa using this
    · exact absurd h (by simp)

theorem name?_append_blanks {b : List Char} (hb : b.all isBlank = true) (s : List Char) :
    name? (s ++ b) = (name? s).map fun p => (p.1, p.2 ++ b) := by
  have hpart : ∀ d ∈ b, isNamePart d = false := fun d hd =>
    Bool.eq_false_iff.2 fun h =>
      Bool.false_ne_true ((isBlank_of_isNamePart h).symm.trans (List.all_eq_true.1 hb d hd))
  cases hs : name? s with
  | some p =>
    obtain ⟨n, r⟩ := p
    obtain ⟨rfl, hn, hr⟩ := name?_eq_some hs
    rw [List.append_assoc]
    refine hn.name?_append fun d hd => ?_
    cases r with
    | nil => exact hpart d (List.mem_of_head? hd)
    | cons e r => exact hr d hd
  | none =>
    cases s with
    | nil =>
      cases b with
      | nil => rfl
      | cons d b =>
        have hd : ¬ isNameStart d = true := fun h =>
          Bool.eq_false_iff.1 (hpart d List.mem_cons_self) (isNamePart_of_isNameStart h)
        exact if_neg hd
    | cons d s =>
      have hd : ¬ isNameStart d = true := fun hd => by
        rw [name?, if_pos hd] at hs
        cases hs
      exact if_neg hd

theorem name?_append_return {s n r : List Char} (h : name? s = some (n, r)) :
    name? (s ++ ['\r']) = some (n, r ++ ['\r']) := by
  rw [name?_append_blanks rfl, h, Option.map_some]

theorem ne_nil_of_name? {s : List Char} {p : List Char × List Char} (h : name? s = some p) :
    s ≠ [] := by
  rintro rfl
  exact absurd h (by simp [name?])

/-! ## Structs -/

theorem endsHeader_append_return {s : List Char} (h : endsHeader s = true) (hs : s ≠ []) :
    endsHeader (s ++ ['\r']) = true := by
  unfold endsHeader at h
  split at h
  · exact absurd rfl hs
  · next t =>
    show onOneLine (t ++ ['\r']) = true
    simpa [onOneLine] using h
  · exact absurd h (by simp)

theorem isSome_abilityList?_iff {s : List Char} :
    (abilityList? s).isSome = true ↔ s.takeWhile isBlank ≠ [] ∧
      endsHeader ((trimStart s).dropWhile isAbilityPart) = true ∧
      ((trimStart s).takeWhile isAbilityPart = [] → 2 ≤ (s.takeWhile isBlank).length) := by
  unfold abilityList?
  dsimp only
  by_cases hlead : s.takeWhile isBlank = []
  · simp [hlead]
  · by_cases hend : endsHeader ((trimStart s).dropWhile isAbilityPart) = true
    · by_cases hgiven : (trimStart s).takeWhile isAbilityPart = []
      · by_cases hlong : 2 ≤ (s.takeWhile isBlank).length <;> simp [hlead, hend, hgiven, hlong]
      · simp [hlead, hend, hgiven]
    · simp [hlead, hend]

theorem abilityList?_append_return {s : List Char} (h : (abilityList? s).isSome = true) :
    (abilityList? (s ++ ['\r'])).isSome = true := by
  obtain ⟨hlead, hend, hlong⟩ := isSome_abilityList?_iff.1 h
  rw [isSome_abilityList?_iff]
  by_cases hs : trimStart s = []
  · -- of blanks alone there is one more
    have hblank : ∀ c ∈ s ++ ['\r'], isBlank c = true := by
      exact List.forall_mem_append.2
        ⟨List.dropWhile_eq_nil_iff.1 hs, List.forall_mem_singleton.2 rfl⟩
    have hne : s ≠ [] := by
      rintro rfl
      exact hlead rfl
    rw [trimStart_append_return_of_nil hs, List.takeWhile_eq_self_iff.2 hblank]
    refine ⟨by simp, rfl, fun _ => ?_⟩
    have := List.length_pos_iff.2 hne
    simp only [List.length_append, List.length_singleton]
    omega
  · have hsame : (s ++ ['\r']).takeWhile isBlank = s.takeWhile isBlank := by
      have hne : ¬ ∀ c ∈ s, isBlank c = true := fun h => hs (List.dropWhile_eq_nil_iff.2 h)
      rw [List.takeWhile_append, if_neg]
      intro hlen
      exact hne (List.takeWhile_eq_self_iff.1 ((List.takeWhile_prefix _).eq_of_length hlen))
    rw [trimStart_append_return hs, hsame]
    refine ⟨hlead, ?_, fun hgiven => hlong ?_⟩
    · rw [List.dropWhile_append]
      split
      · rfl
      · next hrest => exact endsHeader_append_return hend (by simpa using hrest)
    · obtain ⟨c, t, ht⟩ := List.exists_cons_of_ne_nil hs
      rw [ht] at hgiven ⊢
      by_cases hc : isAbilityPart c = true
      · rw [List.cons_append, List.takeWhile_cons_of_pos hc] at hgiven
        exact absurd hgiven (by simp)
      · exact List.takeWhile_cons_of_neg hc

theorem abilities?_append_return {s : List Char} (h : (abilities? s).isSome = true) :
    (abilities? (s ++ ['\r'])).isSome = true := by
  unfold abilities? at h ⊢
  by_cases hs : trimStart s = []
  · rw [trimStart_append_return_of_nil hs]
    rfl
  · rw [trimStart_append_return hs]
    cases hhas : afterPrefix? "has".toList (trimStart s) with
    | some r =>
      rw [hhas] at h
      rw [afterPrefix?_eq_some_iff.1 hhas, List.append_assoc, afterPrefix?_eq_some_iff.2 rfl]
      exact abilityList?_append_return h
    | none =>
      have hend : endsHeader (trimStart s) = true := by
        rw [hhas] at h
        by_contra hend
        simp [hend] at h
      have hmore := endsHeader_append_return hend hs
      have hnone : afterPrefix? "has".toList (trimStart s ++ ['\r']) = none := by
        unfold endsHeader at hend
        split at hend
        · next hnil => exact absurd hnil hs
        · next t ht =>
          rw [ht]
          rfl
        · exact absurd hend (by simp)
      rw [hnone]
      simp [hmore]

theorem structTail?_trimStart (s : List Char) : structTail? (trimStart s) = structTail? s := by
  have hagain : trimStart (trimStart s) = trimStart s := List.dropWhile_idempotent _ _
  rw [structTail?, hagain, structTail?]

theorem structTail?_append_return {s : List Char} (h : (structTail? s).isSome = true) :
    (structTail? (s ++ ['\r'])).isSome = true := by
  by_cases hangle : (trimStart s).head? = some '<'
  · obtain ⟨r, hr⟩ := List.head?_eq_some_iff.1 hangle
    have hclose : '>' ∈ r := by
      by_contra hnot
      have hnil : r.dropWhile (· ≠ '>') = [] := by
        refine List.dropWhile_eq_nil_iff.2 fun c hc => ?_
        rw [decide_eq_true_eq]
        rintro rfl
        exact hnot hc
      rw [← structTail?_trimStart, hr, structTail?] at h
      have hstart : trimStart ('<' :: r) = '<' :: r := rfl
      simp only [hstart, hnil, bind, Option.bind_none] at h
      exact absurd h (by simp)
    obtain ⟨q, t, rfl, hq⟩ := List.eq_append_cons_of_mem hclose
    rw [← structTail?_trimStart, hr, structTail?_of_angle hq, Option.isSome_map] at h
    rw [← structTail?_trimStart, trimStart_append_return (by simp [hr]), hr, List.cons_append,
      List.append_assoc, List.cons_append, structTail?_of_angle hq, Option.isSome_map]
    exact abilities?_append_return h
  · have hmore : (trimStart (s ++ ['\r'])).head? ≠ some '<' := by
      by_cases hs : trimStart s = []
      · rw [trimStart_append_return_of_nil hs]
        simp
      · obtain ⟨c, t, ht⟩ := List.exists_cons_of_ne_nil hs
        rw [trimStart_append_return hs, ht]
        rwa [ht] at hangle
    rw [structTail?_of_blank hangle, Option.isSome_map] at h
    rw [structTail?_of_blank hmore, Option.isSome_map]
    exact abilities?_append_return h

/-- The name of a struct, with a keyword before it, and what follows it. -/
theorem isSome_structParts?_iff {l : List Char} :
    (structParts? l).isSome = true ↔ ∃ s n r,
      keyword? "struct".toList ((keyword? "public".toList (trimStart l)).getD (trimStart l)) =
        some s ∧
      name? s = some (n, r) ∧ ((structTail? r).isSome = true ∨
        (∃ short, beforeSuffix? "has".toList n = some short ∧ short ≠ []) ∧
          (abilityList? r).isSome = true) := by
  unfold structParts?
  simp only [bind, Option.isSome_bind, Option.any_eq_true]
  constructor
  · rintro ⟨s, hkey, ⟨n, r⟩, hname, h⟩
    refine ⟨s, n, r, hkey, hname, ?_⟩
    cases htail : structTail? r with
    | some tail => exact .inl rfl
    | none =>
      rw [htail] at h
      rcases hshort : beforeSuffix? "has".toList n with _ | _ | ⟨c, short⟩ <;> rw [hshort] at h
      · exact absurd h Bool.false_ne_true
      · exact absurd h Bool.false_ne_true
      · exact .inr ⟨⟨c :: short, rfl, List.cons_ne_nil c short⟩, by simpa using h⟩
  · rintro ⟨s, n, r, hkey, hname, h⟩
    refine ⟨s, hkey, ⟨n, r⟩, hname, ?_⟩
    cases htail : structTail? r with
    | some tail => rfl
    | none =>
      rw [htail] at h
      obtain h | ⟨⟨short, hshort, hne⟩, h⟩ := h
      · exact absurd h Bool.false_ne_true
      · obtain ⟨c, t, rfl⟩ := List.exists_cons_of_ne_nil hne
        dsimp only
        rw [hshort]
        simpa using h

theorem structParts?_append_return {l : List Char} (h : (structParts? l).isSome = true) :
    (structParts? (l ++ ['\r'])).isSome = true := by
  obtain ⟨s, n, r, hkey, hname, htail⟩ := isSome_structParts?_iff.1 h
  have hl : trimStart l ≠ [] := by
    intro hnil
    rw [hnil] at hkey
    exact absurd (show none = some s from hkey) (Option.some_ne_none s).symm
  have hmore : (keyword? "public".toList (trimStart l ++ ['\r'])).getD (trimStart l ++ ['\r']) =
      (keyword? "public".toList (trimStart l)).getD (trimStart l) ++ ['\r'] := by
    cases hpublic : keyword? "public".toList (trimStart l) with
    | some q =>
      have hq : q ≠ [] := by
        rintro rfl
        rw [hpublic] at hkey
        exact absurd (show none = some s from hkey) (Option.some_ne_none s).symm
      rw [keyword?_append_return hpublic hq]
      rfl
    | none =>
      rw [hpublic, Option.getD_none] at hkey
      obtain ⟨c, t, ht, -, -⟩ := keyword?_eq_some_iff.1 hkey
      rw [ht]
      rfl
  refine isSome_structParts?_iff.2 ⟨s ++ ['\r'], n, r ++ ['\r'], ?_, name?_append_return hname, ?_⟩
  · rw [trimStart_append_return hl, hmore]
    exact keyword?_append_return hkey (ne_nil_of_name? hname)
  · exact htail.imp structTail?_append_return (And.imp_right abilityList?_append_return)

/-! ## Functions -/

theorem eq_of_keyword? {word s r : List Char} (hword : word.all (!isBlank ·) = true)
    (h : keyword? word s = some r) :
    r = trimStart (s.dropWhile (!isBlank ·)) := by
  obtain ⟨c, t, rfl, hc, rfl⟩ := keyword?_eq_some_iff.1 h
  rw [(takeWhile_append (List.all_eq_true.1 hword) (stops_cons (by simp [hc]))).2]
  exact (List.dropWhile_cons_of_pos hc).symm

theorem scope?_append_return {s r : List Char} (h : scope? s = some r) :
    scope? (s ++ ['\r']) = some (r ++ ['\r']) := by
  simp only [scope?, bind, Option.bind_eq_some_iff] at h
  obtain ⟨a, ha, b, hb, hr⟩ := h
  have hstart : trimStart a ≠ [] := by
    intro hnil
    rw [hnil] at hb
    exact absurd (show none = some b from hb) (Option.some_ne_none b).symm
  have hword : (afterPrefix? "friend".toList (trimStart a ++ ['\r'])).or
      (afterPrefix? "package".toList (trimStart a ++ ['\r'])) = some (b ++ ['\r']) := by
    rcases Option.or_eq_some_iff.1 hb with hb | ⟨-, hb⟩
    · rw [afterPrefix?_eq_some_iff.1 hb, List.append_assoc, afterPrefix?_eq_some_iff.2 rfl]
      rfl
    · rw [afterPrefix?_eq_some_iff.1 hb, List.append_assoc]
      rfl
  simp only [scope?, mark?_append_return ha, trimStart_append_return hstart, hword, bind,
    Option.bind_some]
  exact mark?_append_return hr

theorem modifier?_append_return {s r : List Char} (h : modifier? s = some r) (hr : r ≠ [])
    (hparen : r.head? ≠ some '(') : modifier? (s ++ ['\r']) = some (r ++ ['\r']) := by
  rcases Option.or_eq_some_iff.1 h with h | ⟨-, h⟩
  · simp only [scopedModifier?, bind, Option.bind_eq_some_iff] at h
    obtain ⟨a, ha, b, hb, h⟩ := h
    have hscoped : scopedModifier? (s ++ ['\r']) = some (r ++ ['\r']) := by
      rw [afterPrefix?_eq_some_iff.1 ha, List.append_assoc]
      simp only [scopedModifier?, afterPrefix?_eq_some_iff.2 rfl, scope?_append_return hb, bind,
        Option.bind_some]
      exact keyword?_append_return h hr
    rw [modifier?, hscoped, Option.some_or]
  · obtain ⟨w, hw, h⟩ := List.exists_of_findSome?_eq_some h
    have hplain := keyword?_append_return h hr
    have hblank : ∀ v ∈ plainModifiers, v.toList.all (!isBlank ·) = true := by decide
    -- all words that can be read leave the same
    have hfind : plainModifiers.findSome? (fun v => keyword? v.toList (s ++ ['\r'])) =
        some (r ++ ['\r']) := by
      cases hf : plainModifiers.findSome? (fun v => keyword? v.toList (s ++ ['\r'])) with
      | none => exact absurd (List.findSome?_eq_none_iff.1 hf w hw) (by simp [hplain])
      | some q =>
        obtain ⟨v, hv, hq⟩ := List.exists_of_findSome?_eq_some hf
        rw [eq_of_keyword? (hblank v hv) hq, ← eq_of_keyword? (hblank w hw) hplain]
    have hscoped : scopedModifier? (s ++ ['\r']) = none := by
      obtain ⟨c, t, rfl, hc, ht⟩ := keyword?_eq_some_iff.1 h
      have hmark : mark? '(' (c :: (t ++ ['\r'])) = none := by
        have hstart : trimStart (c :: (t ++ ['\r'])) = r ++ ['\r'] := by
          rw [← ht, ← trimStart_append_return (ht ▸ hr)]
          exact List.dropWhile_cons_of_pos hc
        obtain ⟨d, q, rfl⟩ := List.exists_cons_of_ne_nil hr
        rw [mark?, hstart]
        exact if_neg fun hd => hparen (congrArg some hd)
      rw [List.append_assoc, List.cons_append]
      simp only [plainModifiers, List.mem_cons, List.not_mem_nil, or_false] at hw
      rcases hw with rfl | rfl | rfl | rfl | rfl
      · simp only [scopedModifier?, afterPrefix?_eq_some_iff.2 rfl, scope?, hmark, bind,
          Option.bind_some, Option.bind_none]
      all_goals rfl
    rw [modifier?, hscoped, Option.none_or, hfind]

theorem isSome_funName_append_return {s : List Char}
    (h : ((keyword? "fun".toList s).bind name?).isSome = true) :
    ((keyword? "fun".toList (s ++ ['\r'])).bind name?).isSome = true := by
  obtain ⟨⟨n, t⟩, hp⟩ := Option.isSome_iff_exists.1 h
  obtain ⟨r, hr, hname⟩ := Option.bind_eq_some_iff.1 hp
  rw [keyword?_append_return hr (ne_nil_of_name? hname), Option.bind_some,
    name?_append_return hname]
  rfl

theorem functionName?_append_return {s : List Char} (h : (functionName? s).isSome = true) :
    (functionName? (s ++ ['\r'])).isSome = true := by
  unfold functionName? at h ⊢
  rw [Option.isSome_or, Bool.or_eq_true] at h ⊢
  refine h.imp isSome_funName_append_return fun h => ?_
  obtain ⟨⟨n, t⟩, hname⟩ := Option.isSome_iff_exists.1 h
  rw [name?_append_return hname]
  rfl

/-- The modifiers before a name are the same. -/
theorem mem_afterModifiers_append_return {s r : List Char} (hr : r ∈ afterModifiers s)
    (hname : (functionName? r).isSome = true) : r ++ ['\r'] ∈ afterModifiers (s ++ ['\r']) := by
  -- neither a modifier nor a name begins with a parenthesis
  have hstart : ∀ q : List Char, (modifier? q).isSome = true ∨ (functionName? q).isSome = true →
      q ≠ [] ∧ q.head? ≠ some '(' := by
    intro q hq
    refine ⟨?_, fun hparen => ?_⟩
    · rintro rfl
      rcases hq with h | h <;> exact absurd h (by decide)
    · obtain ⟨t, rfl⟩ := List.head?_eq_some_iff.1 hparen
      rcases hq with h | h <;> exact Bool.false_ne_true h
  induction s using afterModifiers.induct with
  | case1 s h =>
    rw [afterModifiers_of_none h] at hr
    exact absurd hr List.not_mem_nil
  | case2 s q h ih =>
    rw [afterModifiers_of_some h] at hr
    have hq : (modifier? q).isSome = true ∨ (functionName? q).isSome = true := by
      rcases List.mem_cons.1 hr with rfl | hr
      · exact .inr hname
      · cases hm : modifier? q with
        | none =>
          rw [afterModifiers_of_none hm] at hr
          exact absurd hr List.not_mem_nil
        | some t => exact .inl rfl
    rw [afterModifiers_of_some (modifier?_append_return h (hstart q hq).1 (hstart q hq).2)]
    rcases List.mem_cons.1 hr with rfl | hr
    · exact List.mem_cons_self
    · exact List.mem_cons_of_mem _ (ih hr)

theorem isSome_functionStart?_iff {l : List Char} :
    (functionStart? l).isSome = true ↔
      (∃ r ∈ afterModifiers (trimStart l), (functionName? r).isSome = true) ∨
        ((keyword? "fun".toList (trimStart l)).bind name?).isSome = true := by
  unfold functionStart?
  simp only [Option.isSome_or, Option.isSome_map, Bool.or_eq_true, List.findSome?_isSome_iff,
    List.mem_reverse]

theorem functionStart?_append_return {s : List Char} (h : (functionStart? s).isSome = true) :
    (functionStart? (s ++ ['\r'])).isSome = true := by
  rw [isSome_functionStart?_iff] at h ⊢
  have hs : trimStart s ≠ [] := by
    intro hnil
    rw [hnil, afterModifiers_of_none rfl] at h
    rcases h with ⟨r, hr, -⟩ | h
    · exact absurd hr List.not_mem_nil
    · exact Bool.false_ne_true h
  rw [trimStart_append_return hs]
  refine h.imp ?_ isSome_funName_append_return
  rintro ⟨r, hr, hname⟩
  exact ⟨r ++ ['\r'], mem_afterModifiers_append_return hr hname, functionName?_append_return hname⟩

/-- A line that opens a block does so with a carriage return at its end, too. -/
theorem opensBlock_append_return {l : List Char} (h : opensBlock l = true) :
    opensBlock (l ++ ['\r']) = true := by
  unfold opensBlock at h ⊢
  rw [Bool.or_eq_true] at h ⊢
  exact h.imp structParts?_append_return functionStart?_append_return

end PseudoMove.Listing
