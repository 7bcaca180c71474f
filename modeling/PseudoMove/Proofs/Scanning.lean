import PseudoMove.Listing.Header
import PseudoMove.Listing.Line
import Mathlib

/-!
# Scanning what was written

A scanner that stands at the beginning of something written in its form reads it and stops behind
it.  The statements have the rest of the line as a variable, with the condition that what was read
does not go on in it (`Stops`).
-/

namespace PseudoMove.Listing

open Text

/-- A run of characters in the class `p` does not go on in this text. -/
def Stops (p : Char → Bool) (s : List Char) : Prop := ∀ c ∈ s.head?, p c = false

theorem stops_cons {p : Char → Bool} {c : Char} {s : List Char} (h : p c = false) :
    Stops p (c :: s) := by
  intro d hd
  obtain rfl := Option.some.inj hd
  exact h

/-- The longest run of a class is what was written in the class. -/
theorem takeWhile_append {p : Char → Bool} {w s : List Char} (hw : ∀ c ∈ w, p c = true)
    (hs : Stops p s) :
    (w ++ s).takeWhile p = w ∧ (w ++ s).dropWhile p = s := by
  rw [List.takeWhile_append_of_pos hw, List.dropWhile_append_of_pos hw]
  cases s with
  | nil => simp
  | cons c s =>
    have hc : p c = false := hs c rfl
    simp [hc]

/-! ## Trimmed texts -/

theorem trimStart_eq_self_iff {s : List Char} :
    trimStart s = s ↔ ∀ c ∈ s.head?, isBlank c = false := by
  unfold trimStart
  rw [List.dropWhile_eq_self_iff]
  cases s <;> simp

theorem dropEndWhile_eq_self_iff {p : Char → Bool} {s : List Char} :
    dropEndWhile p s = s ↔ ∀ c ∈ s.getLast?, p c = false := by
  rw [dropEndWhile, List.reverse_eq_iff, List.dropWhile_eq_self_iff, ← List.head?_reverse]
  cases s.reverse <;> simp

theorem trimEnd_eq_self_iff {s : List Char} :
    trimEnd s = s ↔ ∀ c ∈ s.getLast?, isBlank c = false := dropEndWhile_eq_self_iff

/-- A text is trimmed if it neither begins nor ends with a blank. -/
theorem trim_eq_self_iff {s : List Char} : trim s = s ↔ trimStart s = s ∧ trimEnd s = s := by
  constructor
  · intro h
    have hlen := congrArg List.length h
    have hend : (trimEnd (trimStart s)).length ≤ (trimStart s).length := length_dropEndWhile_le _ _
    have hsuffix : trimStart s <:+ s := List.dropWhile_suffix _
    have hstart : trimStart s = s := hsuffix.eq_of_length_le (hlen ▸ hend)
    exact ⟨hstart, by rw [trim, hstart] at h; exact h⟩
  · rintro ⟨hs, he⟩
    rw [trim, hs, he]

/-- Blanks in front of a text are trimmed. -/
theorem trimStart_append {b : List Char} (hb : b.all isBlank = true) (s : List Char) :
    trimStart (b ++ s) = trimStart s := List.dropWhile_append_of_pos (List.all_eq_true.1 hb)

/-- Blanks behind a text are trimmed. -/
theorem trimEnd_append {b : List Char} (hb : b.all isBlank = true) (s : List Char) :
    trimEnd (s ++ b) = trimEnd s := by
  unfold trimEnd dropEndWhile
  rw [List.reverse_append, List.dropWhile_append_of_pos fun c hc =>
    List.all_eq_true.1 hb c (List.mem_reverse.1 hc)]

/-- Blanks in front of a text count for nothing in its trimmed form. -/
theorem trim_blanks {b : List Char} (hb : b.all isBlank = true) (s : List Char) :
    trim (b ++ s) = trim s := by
  rw [trim, trimStart_append hb, trim]

/-- Nor do blanks behind it. -/
theorem trim_append {b : List Char} (hb : b.all isBlank = true) (s : List Char) :
    trim (s ++ b) = trim s := by
  unfold trim trimStart
  rw [List.dropWhile_append]
  split
  · next h =>
    rw [List.isEmpty_iff.1 h, List.dropWhile_eq_nil_iff.2 (List.all_eq_true.1 hb)]
  · exact trimEnd_append hb _

theorem trim_cons {c : Char} (hc : isBlank c = false) (s : List Char) :
    trim (c :: s) = c :: trimEnd s := by
  have hstart : trimStart (c :: s) = c :: s := trimStart_eq_self_iff.2 (stops_cons hc)
  rw [trim, hstart]
  unfold trimEnd dropEndWhile
  rw [List.reverse_cons, List.dropWhile_append]
  split
  · next h =>
    rw [List.isEmpty_iff.1 h]
    simp [hc]
  · simp

/-- Trimming twice is trimming once. -/
theorem trim_trim (s : List Char) : trim (trim s) = trim s := by
  have hend : ∀ r, trimEnd (trimEnd r) = trimEnd r := by
    intro r
    unfold trimEnd dropEndWhile
    rw [List.reverse_reverse, List.dropWhile_idempotent]
  have hstart : trim s = trim (trimStart s) := congrArg trimEnd (List.dropWhile_idempotent _ _).symm
  cases hs : trimStart s with
  | nil =>
    rw [hstart, hs]
    rfl
  | cons c r =>
    have hc : isBlank c = false := by
      have := List.head?_dropWhile_not isBlank s
      rw [show s.dropWhile isBlank = c :: r from hs] at this
      simpa using this
    rw [hstart, hs, trim_cons hc, trim_cons hc, hend]

/-- Trimming leaves nothing of blanks alone, and something of any other text. -/
theorem trim_eq_nil_iff {s : List Char} : trim s = [] ↔ ∀ c ∈ s, isBlank c = true := by
  have hend : trim s = [] ↔ ∀ c ∈ trimStart s, isBlank c = true := by
    unfold trim trimEnd dropEndWhile
    rw [List.reverse_eq_nil_iff, List.dropWhile_eq_nil_iff]
    simp only [List.mem_reverse]
  rw [hend]
  constructor
  · intro h
    cases ht : trimStart s with
    | nil => exact List.dropWhile_eq_nil_iff.1 ht
    | cons c r =>
      have hc := List.head?_dropWhile_not isBlank s
      rw [show s.dropWhile isBlank = c :: r from ht] at hc
      rw [ht] at h
      exact absurd (h c List.mem_cons_self) (by simpa using hc)
  · exact fun h c hc => h c ((List.dropWhile_suffix _).subset hc)

/-! ## Names and marks -/

/-- A name: a letter or an underscore, then letters, digits and underscores. -/
def IsIdentifier (n : List Char) : Prop := n.head?.any isNameStart = true ∧ n.all isNamePart = true

instance (n : List Char) : Decidable (IsIdentifier n) := inferInstanceAs (Decidable (_ ∧ _))

theorem isNamePart_of_isNameStart {c : Char} (h : isNameStart c = true) : isNamePart c = true := by
  simp only [isNameStart, isNamePart, Char.isAlphanum, Bool.or_eq_true] at h ⊢
  exact h.imp_left Or.inl

theorem toNat_of_isNamePart {c : Char} (h : isNamePart c = true) :
    48 ≤ c.toNat ∧ c.toNat ≤ 122 := by
  simp only [isNamePart, Char.isAlphanum, Char.isAlpha, Char.isUpper, Char.isLower, Char.isDigit,
    Bool.or_eq_true, Bool.and_eq_true, decide_eq_true_eq, ge_iff_le, UInt32.le_iff_toNat_le,
    beq_iff_eq] at h
  rcases h with ((⟨h1, h2⟩ | ⟨h1, h2⟩) | ⟨h1, h2⟩) | rfl
  · have h1 : 65 ≤ c.toNat := h1
    have h2 : c.toNat ≤ 90 := h2
    omega
  · have h1 : 97 ≤ c.toNat := h1
    have h2 : c.toNat ≤ 122 := h2
    omega
  · have h1 : 48 ≤ c.toNat := h1
    have h2 : c.toNat ≤ 57 := h2
    omega
  · decide

theorem ne_of_isNamePart {c d : Char} (hc : isNamePart c = true) (hd : isNamePart d = false) :
    c ≠ d := by
  rintro rfl
  exact absurd (hc.symm.trans hd) (by decide)

theorem isBlank_of_isNamePart {c : Char} (h : isNamePart c = true) : isBlank c = false := by
  have hn := toNat_of_isNamePart h
  simp only [isBlank, Bool.or_eq_false_iff, Bool.and_eq_false_iff, decide_eq_false_iff_not,
    beq_eq_false_iff_ne]
  omega

theorem isNamePart_of_isBlank {c : Char} (h : isBlank c = true) : isNamePart c = false := by
  rw [← Bool.not_eq_true]
  intro hc
  exact absurd (h.symm.trans (isBlank_of_isNamePart hc)) (by decide)

theorem ne_of_isBlank {c d : Char} (hc : isBlank c = true) (hd : isBlank d = false) : c ≠ d := by
  rintro rfl
  exact absurd (hc.symm.trans hd) (by decide)

theorem trimStart_of_namePart {n : List Char} (hne : n ≠ []) (hn : n.all isNamePart = true)
    (s : List Char) :
    trimStart (n ++ s) = n ++ s := by
  obtain ⟨c, n, rfl⟩ := List.exists_cons_of_ne_nil hne
  exact trimStart_eq_self_iff.2
    (stops_cons (isBlank_of_isNamePart (List.all_eq_true.1 hn c List.mem_cons_self)))

theorem IsIdentifier.ne_nil {n : List Char} (h : IsIdentifier n) : n ≠ [] := by
  rintro rfl
  exact absurd h.1 (by decide)

theorem IsIdentifier.name?_append {n s : List Char} (hn : IsIdentifier n)
    (hs : Stops isNamePart s) :
    name? (n ++ s) = some (n, s) := by
  obtain ⟨h1, h2⟩ := hn
  obtain ⟨ht, hd⟩ := takeWhile_append (List.all_eq_true.1 h2) hs
  cases n with
  | nil => exact absurd h1 (by decide)
  | cons c n =>
    have hc : isNameStart c = true := h1
    rw [List.cons_append, name?, if_pos hc, ← List.cons_append, ht, hd]

theorem mark?_cons {m : Char} (hm : isBlank m = false) (s : List Char) :
    mark? m (m :: s) = some s := by
  have h : trimStart (m :: s) = m :: s := trimStart_eq_self_iff.2 (stops_cons hm)
  rw [mark?, h]
  exact if_pos rfl

/-! ## Values -/

/-- A text that is not empty and has no blanks at its ends. -/
def IsTrimmed (s : List Char) : Prop := s ≠ [] ∧ trim s = s

instance (s : List Char) : Decidable (IsTrimmed s) := inferInstanceAs (Decidable (_ ∧ _))

theorem isTrimmed_toList {s : String} (hne : s ≠ "") (h : trim s.toList = s.toList) :
    IsTrimmed s.toList :=
  ⟨fun hnil => hne (String.toList_eq_nil_iff.1 hnil), h⟩

theorem IsTrimmed.trimStart_append {s : List Char} (hs : IsTrimmed s) (t : List Char) :
    trimStart (s ++ t) = s ++ t := by
  obtain ⟨hne, hs⟩ := hs
  have hstart := trimStart_eq_self_iff.1 (trim_eq_self_iff.1 hs).1
  obtain ⟨c, s, rfl⟩ := List.exists_cons_of_ne_nil hne
  exact trimStart_eq_self_iff.2 hstart

theorem IsTrimmed.trimEnd_append {t : List Char} (ht : IsTrimmed t) (s : List Char) :
    trimEnd (s ++ t) = s ++ t := by
  obtain ⟨hne, ht⟩ := ht
  have hend := trimEnd_eq_self_iff.1 (trim_eq_self_iff.1 ht).2
  refine trimEnd_eq_self_iff.2 ?_
  rw [List.getLast?_append, List.getLast?_eq_some_getLast hne, Option.some_or,
    ← List.getLast?_eq_some_getLast hne]
  exact hend

/-- A text between two ends that are trimmed is trimmed. -/
theorem IsTrimmed.append {s t : List Char} (hs : IsTrimmed s) (ht : IsTrimmed t) (m : List Char) :
    IsTrimmed (s ++ m ++ t) := by
  refine ⟨by simp [hs.1], trim_eq_self_iff.2 ⟨?_, ht.trimEnd_append _⟩⟩
  rw [List.append_assoc]
  exact hs.trimStart_append _

theorem IsTrimmed.concat {s : List Char} (hs : IsTrimmed s) {m : Char} (hm : isBlank m = false) :
    IsTrimmed (s ++ [m]) := by
  have hmark : IsTrimmed [m] := ⟨by simp, trim_of_forall fun c hc => List.mem_singleton.1 hc ▸ hm⟩
  have := hs.append hmark []
  rwa [List.append_nil] at this

theorem IsIdentifier.isTrimmed {n : List Char} (hn : IsIdentifier n) : IsTrimmed n :=
  ⟨hn.ne_nil, trim_of_forall fun c hc => isBlank_of_isNamePart (List.all_eq_true.1 hn.2 c hc)⟩

/-- The value of a declaration is read up to its closing mark. -/
theorem IsTrimmed.closedValue?_append {v : List Char} (hv : IsTrimmed v) {m : Char}
    (hm : isBlank m = false) (hline : '\n' ∉ v) : closedValue? m (' ' :: (v ++ [m])) = some v := by
  have ht : trim (' ' :: (v ++ [m])) = v ++ [m] := (hv.concat hm).2
  have hend : trimEnd v = v := (trim_eq_self_iff.1 hv.2).2
  unfold closedValue?
  rw [ht]
  cases hvm : v ++ [m] with
  | nil => exact absurd hvm (by simp)
  | cons c s =>
    dsimp only
    rw [← hvm, List.getLast?_concat, if_pos rfl, List.dropLast_concat, hend, if_neg hv.1]
    exact if_pos (by simp [onOneLine, hline])

/-! ## Remarks -/

theorem remark?_paren (s : List Char) :
    remark? ('(' :: s) =
      match beforeSuffix? [')'] (trimEnd s) with
      | some t => if onOneLine t then some (some (trim t)) else none
      | none => none :=
  rfl

/-- A remark without parentheses stands behind a blank. -/
theorem remark?_of_ne {c : Char} (hc : c ≠ '(') (s : List Char) :
    remark? (c :: s) = if isBlank c then
      match trim (c :: s) with
      | [] => some none
      | t => if onOneLine t then some (some t) else none
    else none := by
  unfold remark?
  split
  · next h => exact absurd (List.cons.inj h).1 hc
  · next h => cases h
  · next h =>
    obtain ⟨rfl, rfl⟩ := List.cons.inj h
    split <;> rfl

end PseudoMove.Listing
