import PseudoMove.Proofs.Scanning

/-!
# Lists in brackets

The depth of brackets followed through a text (`depthThrough?`) tells what may stand in a list: a
text whose brackets balance, without a comma outside them (`IsItem`).  Items with commas between
them (`CommaList`) are enclosed as a whole by the brackets around them (`enclosed?_of_balanced`),
and are split again into the items (`CommaList.splitOutside`).  Of any text the parts are all there
is, but for blanks and a separator at the end (`unspaced_splitOutside`).
-/

namespace PseudoMove.Bracket

open Text Listing

/-- The bracket depth at the end of a text, from a depth at its beginning on. There is none
if a bracket closes that was not opened, or if a character of the class `apart` stands
outside all brackets. -/
def depthThrough? (apart : Char → Bool) : Nat → List Char → Option Nat
  | depth, [] => some depth
  | depth, c :: s =>
    if isOpening c then depthThrough? apart (depth + 1) s
    else if isClosing c then if depth = 0 then none else depthThrough? apart (depth - 1) s
    else if depth = 0 ∧ apart c then none
    else depthThrough? apart depth s

/-- The brackets of a text balance. -/
def IsBalanced (s : List Char) : Prop := depthThrough? (fun _ => false) 0 s = some 0

/-- The brackets of a text balance, and no comma stands outside them. -/
def IsItem (s : List Char) : Prop := depthThrough? (· == ',') 0 s = some 0

instance (s : List Char) : Decidable (IsBalanced s) := inferInstanceAs (Decidable (_ = _))

instance (s : List Char) : Decidable (IsItem s) := inferInstanceAs (Decidable (_ = _))

variable {apart : Char → Bool} {d e : Nat} {s t : List Char}

theorem depthThrough?_append (apart : Char → Bool) (d : Nat) (s t : List Char) :
    depthThrough? apart d (s ++ t) =
      (depthThrough? apart d s).bind fun e => depthThrough? apart e t := by
  induction s generalizing d with
  | nil => rfl
  | cons c s ih =>
    rw [List.cons_append, depthThrough?, depthThrough?]
    split
    · exact ih _
    · split
      · split
        · rfl
        · exact ih _
      · split
        · rfl
        · exact ih _

/-- A text without brackets and without what is to stand apart changes no depth. -/
theorem depthThrough?_of_plain
    (hs : ∀ c ∈ s, isOpening c = false ∧ isClosing c = false ∧ apart c = false) :
    depthThrough? apart d s = some d := by
  induction s with
  | nil => rfl
  | cons c s ih =>
    obtain ⟨h1, h2, h3⟩ := hs c List.mem_cons_self
    rw [depthThrough?, h1, h2, h3]
    simpa using ih fun c hc => hs c (List.mem_cons_of_mem _ hc)

/-- The depth is the same if nothing is to stand apart. -/
theorem depthThrough?_mono (h : depthThrough? apart d s = some e) :
    depthThrough? (fun _ => false) d s = some e := by
  induction s generalizing d with
  | nil => exact h
  | cons c s ih =>
    rw [depthThrough?] at h ⊢
    split
    · next ho =>
      rw [if_pos ho] at h
      exact ih h
    · next ho =>
      rw [if_neg ho] at h
      split
      · next hc =>
        rw [if_pos hc] at h
        split at h
        · exact absurd h (by simp)
        · next hd =>
          rw [if_neg hd]
          exact ih h
      · next hc =>
        rw [if_neg hc] at h
        split at h
        · exact absurd h (by simp)
        · simpa using ih h

/-- What is balanced changes no depth, and in brackets nothing stands outside them. -/
theorem depthThrough?_succ {apart : Char → Bool} {d e : Nat} {s : List Char}
    (h : depthThrough? (fun _ => false) d s = some e) :
    depthThrough? apart (d + 1) s = some (e + 1) := by
  induction s generalizing d with
  | nil => exact congrArg (·.map (· + 1)) h
  | cons c s ih =>
    rw [depthThrough?] at h ⊢
    split
    · next ho =>
      rw [if_pos ho] at h
      exact ih h
    · next ho =>
      rw [if_neg ho] at h
      split
      · next hc =>
        rw [if_pos hc] at h
        split at h
        · exact absurd h (by simp)
        · next hd =>
          obtain ⟨d, rfl⟩ := Nat.exists_eq_succ_of_ne_zero hd
          exact ih h
      · next hc =>
        rw [if_neg hc, if_neg (by simp)] at h
        rw [if_neg (by simp)]
        exact ih h

theorem IsItem.isBalanced (h : IsItem s) : IsBalanced s := depthThrough?_mono h

theorem IsBalanced.append (hs : IsBalanced s) (ht : IsBalanced t) : IsBalanced (s ++ t) := by
  rw [IsBalanced, depthThrough?_append, hs]
  exact ht

theorem IsItem.append (hs : IsItem s) (ht : IsItem t) : IsItem (s ++ t) := by
  rw [IsItem, depthThrough?_append, hs]
  exact ht

/-- A balanced text in brackets is an item of a list. -/
theorem isItem_angled {s : List Char} (hs : IsBalanced s) : IsItem ('<' :: (s ++ ['>'])) := by
  have hopen : ∀ t, depthThrough? (· == ',') 0 ('<' :: t) = depthThrough? (· == ',') 1 t :=
    fun _ => rfl
  rw [IsItem, hopen, depthThrough?_append, depthThrough?_succ hs]
  rfl

/-! ## Enclosed texts -/

theorem splitAtClose_cons (d : Nat) (c : Char) (s : List Char) :
    splitAtClose d (c :: s) =
      if isOpening c then (splitAtClose (d + 1) s).map fun r => (c :: r.1, r.2)
      else if isClosing c then
        if d = 0 then some ([], s) else (splitAtClose (d - 1) s).map fun r => (c :: r.1, r.2)
      else (splitAtClose d s).map fun r => (c :: r.1, r.2) := by
  cases d <;> rfl

/-- What is enclosed ends at a closing bracket. -/
theorem eq_of_splitAtClose {depth : Nat} {s : List Char} {r : List Char × List Char}
    (h : splitAtClose depth s = some r) : ∃ c, isClosing c = true ∧ s = r.1 ++ c :: r.2 := by
  induction s generalizing depth r with
  | nil => simp [splitAtClose] at h
  | cons d s ih =>
    have later : ∀ n, (splitAtClose n s).map (fun r => (d :: r.1, r.2)) = some r →
        ∃ c, isClosing c = true ∧ d :: s = r.1 ++ c :: r.2 := by
      intro n hn
      obtain ⟨q, hq, rfl⟩ := Option.map_eq_some_iff.1 hn
      obtain ⟨c, hc, rfl⟩ := ih hq
      exact ⟨c, hc, rfl⟩
    unfold splitAtClose at h
    split at h
    · exact later _ h
    · split at h
      · next hd =>
        split at h
        · rw [← Option.some.inj h]
          exact ⟨d, hd, rfl⟩
        · exact later _ h
      · exact later _ h

/-- The partner of an open bracket is looked for behind a text that it does not stand in. -/
theorem splitAtClose_append (h : depthThrough? apart d s = some e) (t : List Char) :
    splitAtClose d (s ++ t) = (splitAtClose e t).map fun r => (s ++ r.1, r.2) := by
  induction s generalizing d with
  | nil =>
    obtain rfl := Option.some.inj h
    simp
  | cons c s ih =>
    have step : ∀ d', depthThrough? apart d' s = some e →
        (splitAtClose d' (s ++ t)).map (fun r => (c :: r.1, r.2)) =
          (splitAtClose e t).map fun r => (c :: s ++ r.1, r.2) := by
      intro d' h'
      rw [ih h', Option.map_map]
      rfl
    rw [depthThrough?] at h
    rw [List.cons_append, splitAtClose_cons]
    split
    · next ho =>
      rw [if_pos ho] at h
      exact step _ h
    · next ho =>
      rw [if_neg ho] at h
      split
      · next hc =>
        rw [if_pos hc] at h
        split at h
        · exact absurd h (by simp)
        · next hd =>
          rw [if_neg hd]
          exact step _ h
      · next hc =>
        rw [if_neg hc] at h
        split at h
        · exact absurd h (by simp)
        · exact step _ h

theorem isOpening_of_isClosing {c : Char} (h : isClosing c = true) : isOpening c = false := by
  simp only [isClosing, Bool.or_eq_true, beq_iff_eq] at h
  rcases h with ((rfl | rfl) | rfl) | rfl <;> rfl

/-- A closing bracket encloses the balanced text before it. -/
theorem enclosed?_of_balanced (hs : IsBalanced s) {c : Char} (ho : isOpening c = false)
    (hc : isClosing c = true) (t : List Char) : enclosed? (s ++ c :: t) = some (s, t) := by
  rw [enclosed?, splitAtClose_append hs, splitAtClose_cons, ho, hc]
  simp

/-! ## Items joined by commas -/

/-- What holds of the separator and of every part holds of the parts joined. -/
theorem forall_mem_intercalate {α : Type} {p : α → Prop} {sep : List α} {ss : List (List α)}
    (hsep : ∀ c ∈ sep, p c) (hss : ∀ s ∈ ss, ∀ c ∈ s, p c) : ∀ c ∈ sep.intercalate ss, p c := by
  induction ss with
  | nil => simp
  | cons s ss ih =>
    have hs := hss s List.mem_cons_self
    have hrest := ih fun x hx => hss x (List.mem_cons_of_mem _ hx)
    cases ss with
    | nil => simpa using hs
    | cons x ss =>
      rw [List.intercalate_cons_cons]
      intro c hc
      rcases List.mem_append.1 hc with hc | hc
      · rcases List.mem_append.1 hc with hc | hc
        · exact hs c hc
        · exact hsep c hc
      · exact hrest c hc

theorem isTrimmed_intercalate (sep : List Char) {s : List Char} {ss : List (List Char)}
    (h : ∀ x ∈ s :: ss, IsTrimmed x) :
    IsTrimmed (sep.intercalate (s :: ss)) := by
  induction ss generalizing s with
  | nil => simpa using h s List.mem_cons_self
  | cons x ss ih =>
    rw [List.intercalate_cons_cons]
    exact (h s List.mem_cons_self).append (ih fun y hy => h y (List.mem_cons_of_mem _ hy)) sep

theorem topPieces_ne_nil (sep : Char) (d : Nat) (s : List Char) : topPieces sep d s ≠ [] := by
  cases s with
  | nil => exact List.cons_ne_nil [] []
  | cons c s =>
    rw [topPieces]
    split
    · exact List.cons_ne_nil _ _
    · exact mt List.modifyHead_eq_nil_iff.1 (topPieces_ne_nil sep _ s)

/-- The pieces with separators between them are the text. -/
theorem intercalate_topPieces (sep : Char) (d : Nat) (s : List Char) :
    [sep].intercalate (topPieces sep d s) = s := by
  induction s generalizing d with
  | nil => rfl
  | cons c s ih =>
    obtain ⟨p, ps, hps⟩ := List.exists_cons_of_ne_nil (topPieces_ne_nil sep (depthAfter c d) s)
    have hs := ih (depthAfter c d)
    rw [topPieces]
    split
    · next hsep =>
      rw [hps, List.intercalate_cons_cons, ← hps, hs, hsep.1]
      rfl
    · rw [hps, List.modifyHead_cons]
      rw [hps] at hs
      cases ps with
      | nil =>
        rw [List.intercalate_singleton] at hs ⊢
        rw [hs]
      | cons q ps =>
        rw [List.intercalate_cons_cons] at hs ⊢
        rw [← hs]
        rfl

/-- A list without parts is a blank text. -/
theorem splitOutside_eq_nil_iff {sep : Char} : splitOutside sep s = [] ↔ trim s = [] := by
  refine ⟨fun h => ?_, fun h => if_pos h⟩
  by_contra hblank
  rw [splitOutside, if_neg hblank] at h
  dsimp only at h
  split at h
  · next hlast =>
    -- the one piece that there is would be the text, and blank
    obtain ⟨p, ps, hps⟩ := List.exists_cons_of_ne_nil (topPieces_ne_nil sep 0 s)
    rw [hps] at h hlast
    cases ps with
    | nil =>
      have hp : p = s := by simpa [hps] using intercalate_topPieces sep 0 s
      exact hblank (by simpa [hp] using hlast)
    | cons q ps => simp at h
  · exact topPieces_ne_nil sep 0 s (List.map_eq_nil_iff.1 h)

/-- Up to the end of an item, nothing is split. -/
theorem topPieces_append (h : depthThrough? (· == ',') d s = some e) (t : List Char) :
    topPieces ',' d (s ++ t) = (topPieces ',' e t).modifyHead (s ++ ·) := by
  induction s generalizing d with
  | nil =>
    obtain rfl := Option.some.inj h
    rw [List.nil_append]
    cases topPieces ',' d t <;> rfl
  | cons c s ih =>
    -- the character is no comma outside brackets, and the depth after it is the one followed
    obtain ⟨hcomma, hdepth⟩ : ¬ (c = ',' ∧ depthAfter c d = 0) ∧
        depthThrough? (· == ',') (depthAfter c d) s = some e := by
      rw [depthThrough?] at h
      unfold depthAfter
      split at h
      · next ho =>
        rw [if_pos ho]
        exact ⟨fun hc => absurd hc.2 (by simp), h⟩
      · next ho =>
        rw [if_neg ho]
        split at h
        · next hc =>
          rw [if_pos hc]
          split at h
          · exact absurd h (by simp)
          · refine ⟨?_, h⟩
            rintro ⟨rfl, -⟩
            exact absurd hc (by decide)
        · next hc =>
          rw [if_neg hc]
          split at h
          · exact absurd h (by simp)
          · next hapart => exact ⟨fun hc => hapart ⟨hc.2, by simp [hc.1]⟩, h⟩
    rw [List.cons_append, topPieces, if_neg hcomma, ih hdepth]
    cases topPieces ',' e t <;> rfl

theorem topPieces_of_isItem (hs : IsItem s) : topPieces ',' 0 s = [s] := by
  have := topPieces_append hs []
  rwa [List.append_nil, topPieces, List.modifyHead_cons, List.append_nil] at this

theorem topPieces_isItem_append (hs : IsItem s) (t : List Char) :
    topPieces ',' 0 (s ++ ',' :: t) = s :: topPieces ',' 0 t := by
  have hcomma : topPieces ',' 0 (',' :: t) = [] :: topPieces ',' 0 t := rfl
  rw [topPieces_append hs, hcomma, List.modifyHead_cons, List.append_nil]

theorem topPieces_intercalate {items : List (List Char)} (hne : items ≠ [])
    (hitems : ∀ x ∈ items, IsItem x) :
    topPieces ',' 0 ([','].intercalate items) = items := by
  induction items with
  | nil => exact absurd rfl hne
  | cons x items ih =>
    have hx := hitems x List.mem_cons_self
    cases items with
    | nil => rw [List.intercalate_singleton, topPieces_of_isItem hx]
    | cons y items =>
      rw [List.intercalate_cons_cons, List.append_assoc,
        List.singleton_append, topPieces_isItem_append hx,
        ih (List.cons_ne_nil y items) fun z hz => hitems z (List.mem_cons_of_mem x hz)]

/-- Items with blanks around them are split at the commas, and the blanks are left out. -/
theorem splitOutside_intercalate_comma {items : List (List Char)}
    (hitems : ∀ x ∈ items, IsItem x ∧ trim x ≠ []) :
    splitOutside ',' ([','].intercalate items) = items.map trim := by
  cases items with
  | nil => rfl
  | cons x items =>
    have hpieces := topPieces_intercalate (List.cons_ne_nil x items) fun y hy => (hitems y hy).1
    have hfirst : ∀ c ∈ x, c ∈ [','].intercalate (x :: items) := by
      cases items with
      | nil => simp
      | cons y items =>
        rw [List.intercalate_cons_cons]
        exact fun c hc => List.mem_append_left _ (List.mem_append_left _ hc)
    have hblank : trim ([','].intercalate (x :: items)) ≠ [] := fun hnil =>
      (hitems x List.mem_cons_self).2
        (trim_eq_nil_iff.2 fun c hc => trim_eq_nil_iff.1 hnil c (hfirst c hc))
    rw [splitOutside, if_neg hblank, hpieces]
    refine if_neg fun hlast => ?_
    obtain ⟨y, hy, hnil⟩ := List.mem_map.1 (List.mem_of_getLast? hlast)
    exact (hitems y hy).2 hnil

/-- The text of a list: its items with commas between them, and any blanks behind a comma. -/
inductive CommaList : List (List Char) → List Char → Prop
  | nil : CommaList [] []
  | single (s : List Char) : CommaList [s] s
  | cons (s : List Char)
    {x : List Char} {ss : List (List Char)} {b t : List Char} (hb : b.all isBlank = true)
    (rest : CommaList (x :: ss) t) : CommaList (s :: x :: ss) (s ++ ',' :: (b ++ t))

theorem commaList_intercalate {b : List Char} (hb : b.all isBlank = true) (ss : List (List Char)) :
    CommaList ss ((',' :: b).intercalate ss) := by
  induction ss with
  | nil => exact .nil
  | cons s ss ih =>
    cases ss with
    | nil =>
      rw [List.intercalate_singleton]
      exact .single s
    | cons x ss =>
      rw [List.intercalate_cons_cons, List.append_assoc, List.cons_append]
      exact .cons s hb ih

/-- Blanks change no depth. -/
theorem depthThrough?_blanks {b : List Char} (hb : b.all isBlank = true) :
    depthThrough? (· == ',') d b = some d := by
  refine depthThrough?_of_plain fun c hc => ?_
  have hne : ∀ m : Char, isBlank m = false → c ≠ m :=
    fun m => ne_of_isBlank (List.all_eq_true.1 hb c hc)
  simp (disch := decide) [isOpening, isClosing, hne]

theorem CommaList.isBalanced {ss : List (List Char)} (h : CommaList ss t)
    (hss : ∀ x ∈ ss, IsItem x) :
    IsBalanced t := by
  induction h with
  | nil => rfl
  | single s => exact (hss s List.mem_cons_self).isBalanced
  | @cons s x ss b t hb rest ih =>
    have hs := (hss s List.mem_cons_self).isBalanced
    have hcomma : IsBalanced (',' :: b) :=
      IsBalanced.append (s := [',']) (by decide) (depthThrough?_mono (depthThrough?_blanks hb))
    have ht := ih fun y hy => hss y (List.mem_cons_of_mem _ hy)
    exact hs.append (hcomma.append ht)

/-- The items are the pieces, but for the blanks. -/
theorem CommaList.map_trim_topPieces {ss : List (List Char)} (h : CommaList ss t) (hne : ss ≠ [])
    (hss : ∀ x ∈ ss, IsTrimmed x ∧ IsItem x) : (topPieces ',' 0 t).map trim = ss := by
  induction h with
  | nil => exact absurd rfl hne
  | single s =>
    obtain ⟨htrim, hitem⟩ := hss s List.mem_cons_self
    rw [topPieces_of_isItem hitem, List.map_singleton, htrim.2]
  | @cons s x ss b t hb rest ih =>
    obtain ⟨htrim, hitem⟩ := hss s List.mem_cons_self
    have hrest := ih (List.cons_ne_nil x ss) fun y hy => hss y (List.mem_cons_of_mem _ hy)
    have hblanks : (topPieces ',' 0 (b ++ t)).map trim = (topPieces ',' 0 t).map trim := by
      rw [topPieces_append (depthThrough?_blanks hb)]
      cases topPieces ',' 0 t with
      | nil => rfl
      | cons p ps => rw [List.modifyHead_cons, List.map_cons, List.map_cons, trim_blanks hb]
    rw [topPieces_isItem_append hitem, List.map_cons, htrim.2, hblanks, hrest]

/-- **The text of a list is split into its items.** -/
theorem CommaList.splitOutside {ss : List (List Char)} (h : CommaList ss t)
    (hss : ∀ x ∈ ss, IsTrimmed x ∧ IsItem x) :
    splitOutside ',' t = ss := by
  cases ss with
  | nil =>
    cases h
    rfl
  | cons s ss =>
    have hpieces := h.map_trim_topPieces (List.cons_ne_nil s ss) hss
    have hblank : trim t ≠ [] := by
      rw [Ne, trim_eq_nil_iff]
      intro hall
      have hs : trim s = [] := trim_eq_nil_iff.2 fun c hc => hall c (by
        cases h with
        | single => exact hc
        | cons => exact List.mem_append_left _ hc)
      obtain ⟨hne, htrim⟩ := (hss s List.mem_cons_self).1
      exact hne (htrim.symm.trans hs)
    rw [Bracket.splitOutside, if_neg hblank, hpieces]
    refine if_neg fun hlast => ?_
    exact (hss [] (List.mem_of_getLast? hlast)).1.1 rfl

theorem isBalanced_intercalate {ss : List (List Char)} (h : ∀ x ∈ ss, IsItem x) :
    IsBalanced ([',', ' '].intercalate ss) := (commaList_intercalate (by decide) ss).isBalanced h

/-- Items joined by commas and spaces are split into the items. -/
theorem splitOutside_intercalate {ss : List (List Char)} (h : ∀ x ∈ ss, IsTrimmed x ∧ IsItem x) :
    splitOutside ',' ([',', ' '].intercalate ss) = ss :=
  (commaList_intercalate (by decide) ss).splitOutside h

/-! ## What a split keeps -/

/-- A text without its blanks. -/
def unspaced (s : List Char) : List Char := s.filter fun c => !isBlank c

theorem unspaced_append (s t : List Char) : unspaced (s ++ t) = unspaced s ++ unspaced t :=
  List.filter_append s t

theorem unspaced_singleton {c : Char} (hc : isBlank c = false) : unspaced [c] = [c] := by
  simp [unspaced, hc]

theorem unspaced_eq_nil_iff : unspaced s = [] ↔ trim s = [] := by
  rw [trim_eq_nil_iff, unspaced, List.filter_eq_nil_iff]
  simp

theorem unspaced_trim (s : List Char) : unspaced (trim s) = unspaced s := by
  unfold unspaced trim trimEnd trimStart
  rw [filter_dropEndWhile, filter_dropWhile]

/-- Erasing blanks goes into the parts of a join and into the separators. -/
theorem unspaced_intercalate (sep : List Char) (ps : List (List Char)) :
    unspaced (sep.intercalate ps) = (unspaced sep).intercalate (ps.map unspaced) := by
  induction ps with
  | nil => rfl
  | cons p ps ih =>
    cases ps with
    | nil => simp
    | cons q ps =>
      rw [List.intercalate_cons_cons, unspaced_append, unspaced_append, ih]
      simp only [List.map_cons, List.intercalate_cons_cons]

theorem intercalate_concat {α : Type} (sep : List α) {ps : List (List α)}
    (hps : ps ≠ []) (p : List α) :
    sep.intercalate (ps ++ [p]) = sep.intercalate ps ++ sep ++ p := by
  induction ps with
  | nil => exact absurd rfl hps
  | cons q ps ih =>
    cases ps with
    | nil => simp [List.intercalate_cons_cons]
    | cons r ps =>
      have hrest := ih (List.cons_ne_nil r ps)
      simp only [List.cons_append, List.intercalate_cons_cons] at hrest ⊢
      rw [hrest]
      simp only [List.append_assoc]

/-- **A split loses no text.** Joined again, the parts are the text but for blanks, and but for a
separator that stands behind the last part. -/
theorem unspaced_splitOutside {sep : Char} (hsep : isBlank sep = false) (s : List Char) :
    unspaced ([sep].intercalate (splitOutside sep s)) = unspaced s ∨
      unspaced ([sep].intercalate (splitOutside sep s)) ++ [sep] = unspaced s := by
  have hpieces : unspaced ([sep].intercalate ((topPieces sep 0 s).map trim)) = unspaced s := by
    conv_rhs => rw [← intercalate_topPieces sep 0 s]
    rw [unspaced_intercalate, unspaced_intercalate, List.map_map]
    simp only [Function.comp_def, unspaced_trim]
  unfold splitOutside
  split
  · next hblank => exact .inl (unspaced_eq_nil_iff.2 hblank).symm
  · next hblank =>
    dsimp only
    split
    · next hlast =>
      obtain ⟨ps, hps⟩ := List.getLast?_eq_some_iff.1 hlast
      rw [hps] at hpieces ⊢
      rw [List.dropLast_concat]
      -- the last part is not the only one, as the text is not blank
      have hne : ps ≠ [] := by
        rintro rfl
        exact hblank (unspaced_eq_nil_iff.1 hpieces.symm)
      rw [intercalate_concat _ hne, List.append_nil, unspaced_append,
        unspaced_singleton hsep] at hpieces
      exact .inr hpieces
    · exact .inl hpieces

/-- **Splitting keeps the text and undoes joining.** The parts of any text are the text again when
they are joined, but for blanks and for one separator at its end; and items of a list, joined by
commas and spaces, are what the text of the list is split into. -/
theorem splitOutside_join :
    (∀ (sep : Char) (s : List Char), isBlank sep = false →
      unspaced ([sep].intercalate (splitOutside sep s)) = unspaced s ∨
        unspaced ([sep].intercalate (splitOutside sep s)) ++ [sep] = unspaced s) ∧
    ∀ ss : List (List Char), (∀ x ∈ ss, IsTrimmed x ∧ IsItem x) →
      splitOutside ',' ([',', ' '].intercalate ss) = ss :=
  ⟨fun _ s hsep => unspaced_splitOutside hsep s, fun _ => splitOutside_intercalate⟩

/-- A text with stray brackets, a part that is blank and a separator at its end. -/
def strayText : List Char := " Coin<SUI>), ,f(u8, u64) ,".toList

/-- Items with commas in brackets of all kinds. -/
def nestedItems : List (List Char) :=
  ["Pair<(u8, u64), [A, B]>".toList, "\x7ba, b\x7d".toList, "&mut T".toList]

theorem splitOutside_join_nested :
    isBlank ',' = false ∧ (∀ x ∈ nestedItems, IsTrimmed x ∧ IsItem x) ∧
      unspaced ([','].intercalate (splitOutside ',' strayText)) ++ [','] = unspaced strayText ∧
      splitOutside ',' ([',', ' '].intercalate nestedItems) = nestedItems := by
  have hitems : ∀ x ∈ nestedItems, IsTrimmed x ∧ IsItem x := by decide +kernel
  obtain ⟨hkeeps, hundoes⟩ := splitOutside_join
  refine ⟨by decide, hitems, ?_, hundoes nestedItems hitems⟩
  -- of the two cases, the text has the separator at its end
  refine (hkeeps ',' strayText (by decide)).resolve_left ?_
  decide +kernel

end PseudoMove.Bracket
