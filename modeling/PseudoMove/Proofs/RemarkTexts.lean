import PseudoMove.Callee
import PseudoMove.Instruction
import PseudoMove.Remark

/-!
# Parts of a remark

What is read off a remark is a part of it: characters that stand together in the remark, in their
order.  Nothing is made up and nothing is put together.  So a word that does not occur in a
remark occurs in no struct, field or path read off it (`isInfix_of_structName?`,
`isInfix_of_fieldName?`, `isInfix_of_read?`).
-/

namespace PseudoMove

open Text PseudoMove.Bracket TypeText Remark

/-! ## Blanks and phrases -/

theorem isPrefix_dropEndWhile (p : Char → Bool) (s : List Char) : dropEndWhile p s <+: s := by
  have h := List.dropWhile_suffix p (l := s.reverse)
  rw [← List.reverse_prefix, List.reverse_reverse] at h
  exact h

theorem isInfix_trim (s : List Char) : trim s <:+: s :=
  (isPrefix_dropEndWhile _ _).isInfix.trans (List.dropWhile_suffix _).isInfix

theorem isSuffix_of_afterPrefix? {pat s r : List Char} (h : afterPrefix? pat s = some r) :
    r <:+ s := by
  rw [afterPrefix?_eq_some_iff] at h
  exact ⟨pat, h.symm⟩

/-! ## Types -/

theorem isInfix_referent (ty : List Char) : referent ty <:+: ty := by
  have ht := isInfix_trim ty
  unfold referent
  dsimp only
  split
  · next r h => exact (isInfix_trim r).trans ((isSuffix_of_afterPrefix? h).isInfix.trans ht)
  · split
    · next r h =>
      have : r <:+: trim ty := by
        rw [h]
        exact (List.suffix_cons '&' r).isInfix
      exact (isInfix_trim r).trans (this.trans ht)
    · exact ht

theorem isSuffix_of_afterLastColons? {s r : List Char} (h : afterLastColons? s = some r) :
    r <:+ s := by
  induction s generalizing r with
  | nil => exact absurd h (by simp [afterLastColons?])
  | cons c s ih =>
    unfold afterLastColons? at h
    split at h
    · next r' hr =>
      obtain rfl := Option.some.inj h
      exact (ih hr).trans (List.suffix_cons _ _)
    · obtain rfl := Option.some.inj h
      exact (List.suffix_cons _ _).trans (List.suffix_cons _ _)
    · exact absurd h (by simp)

theorem isSuffix_lastSegment (path : List Char) : lastSegment path <:+ path := by
  unfold lastSegment
  cases h : afterLastColons? path with
  | none => exact List.suffix_rfl
  | some r => exact isSuffix_of_afterLastColons? h

theorem isInfix_baseName (ty : List Char) : baseName ty <:+: ty := by
  unfold baseName
  refine (isInfix_trim _).trans ((isSuffix_lastSegment _).isInfix.trans ((isInfix_trim _).trans ?_))
  exact (List.takeWhile_prefix _).isInfix.trans (isInfix_referent ty)

/-- The first segment begins the path, and every segment is a part of it. -/
theorem isInfix_of_segments {s : List Char} {q : List Char} {qs : List (List Char)}
    (h : segments s = q :: qs) : q <+: s ∧ ∀ p ∈ qs, p <:+: s := by
  fun_induction segments s generalizing q qs with
  | case1 =>
    obtain ⟨rfl, rfl⟩ := List.cons.inj h
    exact ⟨List.prefix_rfl, by simp⟩
  | case2 s ih =>
    obtain ⟨rfl, rfl⟩ := List.cons.inj h
    refine ⟨List.nil_prefix, fun p hp => ?_⟩
    have hs : s <:+: ':' :: ':' :: s :=
      ((List.suffix_cons _ _).trans (List.suffix_cons _ _)).isInfix
    cases hseg : segments s with
    | nil => exact absurd hp (by simp [hseg])
    | cons q' qs' =>
      obtain ⟨hq, hqs⟩ := ih hseg
      rw [hseg] at hp
      rcases List.mem_cons.1 hp with rfl | hp
      · exact hq.isInfix.trans hs
      · exact (hqs p hp).trans hs
  | case3 c s _ ih =>
    cases hseg : segments s with
    | nil => exact absurd h (by simp [hseg])
    | cons q' qs' =>
      obtain ⟨hq, hqs⟩ := ih hseg
      rw [hseg, List.modifyHead_cons] at h
      obtain ⟨rfl, rfl⟩ := List.cons.inj h
      refine ⟨(List.prefix_cons_inj c).2 hq, fun p hp => ?_⟩
      exact (hqs p hp).trans (List.suffix_cons c s).isInfix

theorem isInfix_of_mem_segments {s p : List Char} (h : p ∈ segments s) : p <:+: s := by
  cases hseg : segments s with
  | nil => exact absurd h (by simp [hseg])
  | cons q qs =>
    obtain ⟨hq, hqs⟩ := isInfix_of_segments hseg
    rw [hseg] at h
    rcases List.mem_cons.1 h with rfl | h
    · exact hq.isInfix
    · exact hqs p h

/-! ## Brackets -/

theorem parts_of_splitAtClose {depth : Nat} {s : List Char} {r : List Char × List Char}
    (h : splitAtClose depth s = some r) : r.1 <+: s ∧ r.2 <:+ s := by
  induction s generalizing depth r with
  | nil => exact absurd h (by simp [splitAtClose])
  | cons c s ih =>
    have step : ∀ d, (splitAtClose d s).map (fun r => (c :: r.1, r.2)) = some r →
        r.1 <+: c :: s ∧ r.2 <:+ c :: s := by
      intro d hd
      obtain ⟨q, hq, rfl⟩ := Option.map_eq_some_iff.1 hd
      obtain ⟨h1, h2⟩ := ih hq
      exact ⟨(List.prefix_cons_inj c).2 h1, h2.trans (List.suffix_cons c s)⟩
    unfold splitAtClose at h
    split at h
    · exact step _ h
    · split at h
      · split at h
        · obtain rfl := Option.some.inj h
          exact ⟨List.nil_prefix, List.suffix_cons c s⟩
        · exact step _ h
      · exact step _ h

/-- The first piece begins the text, and every piece is a part of it. -/
theorem isInfix_of_topPieces {sep : Char} {depth : Nat} {s : List Char} {q : List Char}
    {qs : List (List Char)} (h : topPieces sep depth s = q :: qs) :
    q <+: s ∧ ∀ p ∈ qs, p <:+: s := by
  induction s generalizing depth q qs with
  | nil =>
    obtain ⟨rfl, rfl⟩ := List.cons.inj h
    exact ⟨List.prefix_rfl, by simp⟩
  | cons c s ih =>
    have hs : s <:+: c :: s := (List.suffix_cons c s).isInfix
    cases htop : topPieces sep (depthAfter c depth) s with
    | nil =>
      simp only [topPieces, htop] at h
      split at h
      · obtain ⟨rfl, rfl⟩ := List.cons.inj h
        exact ⟨List.nil_prefix, by simp⟩
      · exact absurd h (by simp)
    | cons q' qs' =>
      obtain ⟨hq, hqs⟩ := ih htop
      simp only [topPieces, htop] at h
      split at h
      · obtain ⟨rfl, rfl⟩ := List.cons.inj h
        refine ⟨List.nil_prefix, fun p hp => ?_⟩
        rcases List.mem_cons.1 hp with rfl | hp
        · exact hq.isInfix.trans hs
        · exact (hqs p hp).trans hs
      · rw [List.modifyHead_cons] at h
        obtain ⟨rfl, rfl⟩ := List.cons.inj h
        exact ⟨(List.prefix_cons_inj c).2 hq, fun p hp => (hqs p hp).trans hs⟩

theorem isInfix_of_mem_splitOutside {sep : Char} {s p : List Char} (h : p ∈ splitOutside sep s) :
    p <:+: s := by
  have key : p ∈ (topPieces sep 0 s).map trim → p <:+: s := by
    intro hp
    obtain ⟨q, hq, rfl⟩ := List.mem_map.1 hp
    refine (isInfix_trim q).trans ?_
    cases htop : topPieces sep 0 s with
    | nil => exact absurd hq (by simp [htop])
    | cons q' qs' =>
      obtain ⟨hq', hqs'⟩ := isInfix_of_topPieces htop
      rw [htop] at hq
      rcases List.mem_cons.1 hq with rfl | hq
      · exact hq'.isInfix
      · exact hqs' q hq
  unfold splitOutside at h
  split at h
  · exact absurd h (by simp)
  · simp only at h
    split at h
    · exact key ((List.dropLast_sublist _).mem h)
    · exact key h

/-- A type argument is a part of its type. -/
theorem isInfix_of_mem_arguments {ty a : List Char} (h : a ∈ arguments ty) : a <:+: ty := by
  unfold arguments at h
  split at h
  · simp at h
  · next c r hr =>
    have hsuffix : c :: r <:+ referent ty := hr ▸ List.dropWhile_suffix _
    split at h
    · next p hp =>
      refine (isInfix_of_mem_splitOutside h).trans ((parts_of_splitAtClose hp).1.isInfix.trans ?_)
      exact ((List.suffix_cons c r).trans hsuffix).isInfix.trans (isInfix_referent ty)
    · simp at h

/-! ## Labels, structs and fields -/

theorem parts_of_splitAtColon {afterColon : Bool} {depth : Int} {s : List Char}
    {r : List Char × List Char} (h : splitAtColon afterColon depth s = some r) :
    r.1 <+: s ∧ r.2 <:+ s := by
  induction s generalizing afterColon depth r with
  | nil => exact absurd h (by simp [splitAtColon])
  | cons c s ih =>
    have step : ∀ a d, (splitAtColon a d s).map (fun r => (c :: r.1, r.2)) = some r →
        r.1 <+: c :: s ∧ r.2 <:+ c :: s := by
      intro a d hd
      obtain ⟨q, hq, rfl⟩ := Option.map_eq_some_iff.1 hd
      obtain ⟨h1, h2⟩ := ih hq
      exact ⟨(List.prefix_cons_inj c).2 h1, h2.trans (List.suffix_cons c s)⟩
    unfold splitAtColon at h
    split at h
    · split at h
      · obtain rfl := Option.some.inj h
        exact ⟨List.nil_prefix, List.suffix_cons c s⟩
      · exact step _ _ h
    · exact step _ _ h

theorem isInfix_label (remark : List Char) : (labelAndType remark).1 <:+: remark := by
  unfold labelAndType
  split
  · next r h => exact (isInfix_trim _).trans (parts_of_splitAtColon h).1.isInfix
  · exact isInfix_trim _

theorem isInfix_of_type {remark ty : List Char} (h : (labelAndType remark).2 = some ty) :
    ty <:+: remark := by
  unfold labelAndType at h
  split at h
  · next r hr =>
    obtain rfl := Option.some.inj h
    exact (isInfix_trim _).trans (parts_of_splitAtColon hr).2.isInfix
  · exact absurd h (by simp)

theorem isInfix_of_structName? {remark name : List Char} (h : structName? remark = some name) :
    name <:+: remark := by
  simp only [structName?, Option.ite_none_left_eq_some, Option.some.injEq] at h
  rw [← h.2]
  exact (List.takeWhile_prefix _).isInfix.trans ((isInfix_baseName _).trans (isInfix_label remark))

theorem isInfix_of_fieldName? {remark name : List Char} (h : fieldName? remark = some name) :
    name <:+: remark := by
  have hdot : ∀ s : List Char, afterLastDot s <:+: s := by
    intro s
    have h := List.takeWhile_prefix (fun c => decide (c ≠ '.')) (l := s.reverse)
    rw [← List.reverse_suffix, List.reverse_reverse] at h
    exact h.isInfix
  simp only [fieldName?, Option.ite_none_left_eq_some, Option.some.injEq] at h
  rw [← h.2]
  exact (isInfix_trim _).trans ((hdot _).trans (isInfix_label remark))

/-! ## Callees and arguments -/

theorem isInfix_of_mem_typeList {s : List Char} {t : String} (h : t ∈ Callee.typeList s) :
    t.toList <:+: s := by
  obtain ⟨p, hp, rfl⟩ := List.mem_map.1 h
  rw [String.toList_ofList]
  exact isInfix_of_mem_splitOutside hp

theorem of_readParameters? {path s : List Char} {ts : List String} {f : Callee}
    (h : Callee.readParameters? path ts s = some f) :
    f.path = String.ofList path ∧ f.typeArguments = ts := by
  unfold Callee.readParameters? at h
  split at h
  · obtain ⟨p, -, rfl⟩ := Option.map_eq_some_iff.1 h
    exact ⟨rfl, rfl⟩
  · exact absurd h (by simp)

/-- The path and the type arguments of a callee are parts of the remark. -/
theorem isInfix_of_read? {remark : List Char} {f : Callee} (h : Callee.read? remark = some f) :
    f.path.toList <:+: remark ∧ ∀ t ∈ f.typeArguments, t.toList <:+: remark := by
  have hs := isInfix_trim remark
  unfold Callee.read? at h
  generalize trim remark = s at h hs
  dsimp only at h
  have hpath : trim (s.takeWhile fun c => c ≠ '<' && c ≠ '(') <:+: remark :=
    (isInfix_trim _).trans ((List.takeWhile_prefix _).isInfix.trans hs)
  split at h
  · exact absurd h (by simp)
  · split at h
    · next r hr =>
      obtain ⟨p, hp, h⟩ := Option.bind_eq_some_iff.1 h
      obtain ⟨h1, h2⟩ := of_readParameters? h
      have hrest : '<' :: r <:+: remark := by
        rw [← hr]
        exact (List.dropWhile_suffix _).isInfix.trans hs
      rw [h1, h2, String.toList_ofList]
      refine ⟨hpath, fun t ht => (isInfix_of_mem_typeList ht).trans ?_⟩
      exact (parts_of_splitAtClose hp).1.isInfix.trans
        ((List.suffix_cons '<' r).isInfix.trans hrest)
    · obtain ⟨h1, h2⟩ := of_readParameters? h
      rw [h1, h2, String.toList_ofList]
      exact ⟨hpath, by simp⟩

/-- The argument of an instruction is a part of its remark or of its operand. -/
theorem isInfix_of_argument {r : Instruction} {a : String} (h : r.argument = some a) :
    ∃ s ∈ r.remark.toList ++ r.operand.toList, a.toList <:+: s.toList := by
  obtain ⟨h, -⟩ := Option.filter_eq_some_iff.1 h
  obtain ⟨s, hs, rfl⟩ := Option.map_eq_some_iff.1 h
  refine ⟨s, ?_, ?_⟩
  · rw [List.mem_append, Option.mem_toList, Option.mem_toList]
    cases hr : r.remark with
    | none =>
      rw [hr] at hs
      exact Or.inr hs
    | some s' =>
      rw [hr] at hs
      exact Or.inl hs
  · rw [trimmed, String.toList_ofList]
    exact isInfix_trim _

/-! ## Counts of parts -/

namespace Bracket

theorem length_topPieces_le (sep : Char) (depth : Nat) (s : List Char) :
    (topPieces sep depth s).length ≤ s.length + 1 := by
  induction s generalizing depth with
  | nil => simp [topPieces]
  | cons c s ih =>
    have := ih (depthAfter c depth)
    unfold topPieces
    dsimp only
    split
    · simpa using this
    · rw [List.length_modifyHead, List.length_cons]
      omega

theorem length_splitOutside_le (sep : Char) (s : List Char) :
    (splitOutside sep s).length ≤ s.length + 1 := by
  have h := length_topPieces_le sep 0 s
  unfold splitOutside
  split
  · simp
  · dsimp only
    split
    · rw [List.length_dropLast, List.length_map]
      omega
    · rwa [List.length_map]

end Bracket

theorem TypeText.resultCount_le (ret : List Char) : resultCount ret ≤ ret.length := by
  have htrim := length_trim_le ret
  unfold resultCount
  dsimp only
  split
  · exact Nat.zero_le _
  · next hne =>
    have hpos : 1 ≤ (trim ret).length := by
      rw [Nat.one_le_iff_ne_zero]
      exact fun h => hne (Or.inl (List.length_eq_zero_iff.1 h))
    split
    · next r hr =>
      split
      · next inside hinside =>
        have h1 := length_splitOutside_le ',' inside
        have h2 := length_of_splitAtClose hinside
        rw [hr] at htrim
        simp only [List.length_cons, List.length_nil] at htrim h2
        omega
      · omega
    · omega

/-- A callee takes no more arguments than its remark has characters, and its return type is
a part of the remark. -/
theorem Callee.of_read? {remark : List Char} {f : Callee} (h : Callee.read? remark = some f) :
    f.arity ≤ remark.length ∧ f.returnType.toList <:+: remark := by
  have hparams : ∀ {path s : List Char} {ts : List String}, readParameters? path ts s = some f →
      f.arity ≤ s.length ∧ f.returnType.toList <:+: s := by
    intro path s ts h
    have hs : trimStart s <:+ s := List.dropWhile_suffix isBlank
    unfold readParameters? at h
    split at h
    · next r hr =>
      obtain ⟨p, hp, rfl⟩ := Option.map_eq_some_iff.1 h
      have h1 := length_splitOutside_le ',' p.1
      have h2 := length_of_splitAtClose hp
      have h3 := hs.length_le
      rw [hr, List.length_cons] at h3
      refine ⟨?_, ?_⟩
      · simp only [arity, typeList, List.length_map]
        omega
      · have hrest : p.2 <:+ s :=
          (parts_of_splitAtClose hp).2.trans ((List.suffix_cons '(' r).trans (hr ▸ hs))
        dsimp only
        split
        · next ret hret =>
          rw [String.toList_ofList]
          refine (isInfix_trim ret).trans ((List.suffix_cons ':' ret).isInfix.trans ?_)
          exact hret ▸ (isInfix_trim p.2).trans hrest.isInfix
        · exact List.nil_infix
    · simp at h
  have htrim := isInfix_trim remark
  unfold read? at h
  dsimp only at h
  split at h
  · simp at h
  · have hrest : ((trim remark).dropWhile fun c => c ≠ '<' && c ≠ '(') <:+ trim remark :=
      List.dropWhile_suffix _
    split at h
    · next r hr =>
      obtain ⟨p, hp, h⟩ := Option.bind_eq_some_iff.1 h
      have hp2 : p.2 <:+: remark := by
        refine List.IsInfix.trans ?_ htrim
        exact ((parts_of_splitAtClose hp).2.trans
          ((List.suffix_cons '<' r).trans (hr ▸ hrest))).isInfix
      exact ⟨Nat.le_trans (hparams h).1 hp2.length_le, (hparams h).2.trans hp2⟩
    · have hpart := hrest.isInfix.trans htrim
      exact ⟨Nat.le_trans (hparams h).1 hpart.length_le, (hparams h).2.trans hpart⟩

end PseudoMove
