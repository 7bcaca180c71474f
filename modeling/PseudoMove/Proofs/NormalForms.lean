import PseudoMove.Identifier
import Mathlib

/-!
# Normal forms of identifiers

Any text can be made into an identifier, and a name in camel case into one in snake case.
What has the form already stays as it is, so doing it twice is doing it once, and no
letter or number is lost.

* `sanitize_normalizes` — the identifier for a text has the letters and numbers of
  the text, in their order;
* `without_isBar_snakeFrom` — but for underscores, snake case goes character by character
  (`letters`), wherever words begin;
* `snakeCase_normalizes` — what this comes to for ASCII texts.  Beyond ASCII some upper-case letters
  have no small form, and some letters have one that are not upper-case.
-/

namespace PseudoMove.Identifier

open Text

variable {p : Char → Bool} {s : List Char} {c : Char}

/-- A text without the characters of a class. -/
def without (p : Char → Bool) (s : List Char) : List Char := s.filter fun c => !p c

/-- The underscore. -/
def isBar (c : Char) : Bool := c == '_'

/-- What may stand between two words: an underscore, a space or a hyphen. -/
def isGap (c : Char) : Bool := c == '_' || c == ' ' || c == '-'

theorem without_append (s t : List Char) : without p (s ++ t) = without p s ++ without p t :=
  List.filter_append s t

theorem without_flatMap (f : Char → List Char) :
    without p (s.flatMap f) = s.flatMap fun c => without p (f c) :=
  List.filter_flatMap

theorem mem_without : c ∈ without p s ↔ c ∈ s ∧ p c = false := by
  simp [without]

/-! ## Identifiers -/

theorem isPart_of_isAlphabetic (h : isAlphabetic c = true) : isPart c = true := by
  simp [isPart, isAlphanumeric, h]

/-- An underscore is not alphanumeric, and all other parts of identifiers are. -/
theorem isAlphanumeric_of_isPart (h : isPart c = true) : isAlphanumeric c = !isBar c := by
  by_cases hc : c = '_'
  · subst hc
    decide
  · have hbar : (c == '_') = false := beq_false_of_ne hc
    rw [isPart, hbar, Bool.or_false] at h
    rw [h, isBar, hbar]
    rfl

theorem isPart_of_isValid (h : isValid s = true) : ∀ c ∈ s, isPart c = true := by
  cases s with
  | nil => exact fun c hc => absurd hc List.not_mem_nil
  | cons d s =>
    simp only [isValid, Bool.and_eq_true, Bool.or_eq_true, beq_iff_eq, List.all_eq_true] at h
    intro c hc
    rcases List.mem_cons.1 hc with rfl | hc
    · rcases h.1 with ha | rfl
      · exact isPart_of_isAlphabetic ha
      · decide
    · exact h.2 c hc

/-! ## Sanitizing -/

theorem mem_of_mem_trimBars (h : c ∈ trimBars s) : c ∈ s := by
  unfold trimBars dropEndWhile at h
  have h := (List.dropWhile_suffix _).mem (List.mem_reverse.1 h)
  exact (List.dropWhile_suffix _).mem (List.mem_reverse.1 h)

/-- What sanitizing leaves are letters, numbers and underscores. -/
theorem isPart_of_mem_sanitize (h : c ∈ sanitize s) : isPart c = true := by
  have hp : ∀ c ∈ trimBars (s.map fun c => if isPart c then c else '_'), isPart c = true := by
    intro c hc
    obtain ⟨d, -, rfl⟩ := List.mem_map.1 (mem_of_mem_trimBars hc)
    split
    · assumption
    · decide
  unfold sanitize at h
  split at h
  · next hv => exact isPart_of_isValid hv c h
  · dsimp only at h
    split at h
    · rcases List.mem_cons.1 h with rfl | h
      · decide
      · exact hp c h
    · exact hp c h

/-- What sanitizing leaves is an identifier. -/
theorem isValid_sanitize (s : List Char) : isValid (sanitize s) = true := by
  by_cases hs : isValid s = true
  · rw [sanitize, if_pos hs]
    exact hs
  · have hparts : ∀ c ∈ sanitize s, isPart c = true := fun c => isPart_of_mem_sanitize
    rw [sanitize, if_neg hs] at hparts ⊢
    dsimp only at hparts ⊢
    generalize trimBars (s.map fun c => if isPart c then c else '_') = r at hparts ⊢
    by_cases hr : r.head?.all isNumeric = true
    · rw [if_pos hr] at hparts ⊢
      rw [isValid, List.all_eq_true.2 fun c hc => hparts c (List.mem_cons_of_mem _ hc)]
      decide
    · rw [if_neg hr] at hparts ⊢
      cases r with
      | nil => exact absurd rfl hr
      | cons c r =>
        -- the first character is no number, so it is a letter or an underscore
        have hc : isPart c = true := hparts c List.mem_cons_self
        have hnumeric : isNumeric c = false := by simpa using hr
        rw [isPart, isAlphanumeric, hnumeric, Bool.or_false] at hc
        rw [isValid, hc, List.all_eq_true.2 fun d hd => hparts d (List.mem_cons_of_mem _ hd)]
        rfl

/-- Identifiers are all that sanitizing leaves as it is. -/
theorem sanitize_eq_self_iff : sanitize s = s ↔ isValid s = true := by
  constructor
  · intro h
    rw [← h]
    exact isValid_sanitize s
  · intro h
    rw [sanitize, if_pos h]

theorem without_isBar_trimBars (s : List Char) : without isBar (trimBars s) = without isBar s :=
  (filter_dropEndWhile isBar _).trans (filter_dropWhile isBar s)

/-- Foreign characters become underscores, and without these the letters and numbers are left. -/
theorem without_isBar_map (s : List Char) :
    without isBar (s.map fun c => if isPart c then c else '_') = s.filter isAlphanumeric := by
  induction s with
  | nil => rfl
  | cons c s ih =>
    have hhead : without isBar [if isPart c then c else '_'] = [c].filter isAlphanumeric := by
      by_cases hc : isPart c = true
      · rw [if_pos hc, without, List.filter_singleton, List.filter_singleton,
          isAlphanumeric_of_isPart hc]
      · have hnot : isAlphanumeric c = false := by
          rw [isPart, Bool.or_eq_true, not_or, Bool.not_eq_true] at hc
          exact hc.1
        rw [if_neg hc, List.filter_singleton, hnot]
        rfl
    rw [List.map_cons, ← List.singleton_append, without_append, hhead, ih, ← List.filter_append,
      List.singleton_append]

/-- Sanitizing keeps all letters and numbers, and besides these there are only underscores. -/
theorem without_isBar_sanitize (s : List Char) :
    without isBar (sanitize s) = s.filter isAlphanumeric := by
  by_cases hs : isValid s = true
  · rw [sanitize, if_pos hs]
    exact List.filter_congr fun c hc => (isAlphanumeric_of_isPart (isPart_of_isValid hs c hc)).symm
  · have htrim := (without_isBar_trimBars _).trans (without_isBar_map s)
    rw [sanitize, if_neg hs]
    dsimp only
    split
    · rw [← List.singleton_append, without_append, htrim]
      rfl
    · exact htrim

/-- **Sanitizing brings every text into the form of an identifier.** What is an identifier stays as
it is, and nothing else does, so sanitizing twice is sanitizing once; and all letters and numbers of
the text are left, in their order. -/
theorem sanitize_normalizes (s : List Char) :
    isValid (sanitize s) = true ∧ (sanitize s = s ↔ isValid s = true) ∧
      sanitize (sanitize s) = sanitize s ∧
      without isBar (sanitize s) = s.filter isAlphanumeric := by
  have hvalid := isValid_sanitize s
  exact ⟨hvalid, sanitize_eq_self_iff, sanitize_eq_self_iff.2 hvalid, without_isBar_sanitize s⟩

-- a Roman number is a letter too and may come first, but where a text has to change it is kept from
-- there
example : isValid "Ⅷé".toList = true ∧ sanitize "Ⅷ-é<u64>".toList = "_Ⅷ_é_u64".toList := by
  decide +kernel

/-! ## Snake case -/

/-- What snake case puts in the place of a character, apart from underscores between words. -/
def letters (c : Char) : List Char :=
  if isUppercase c then lowerChar c else if c = ' ' ∨ c = '-' then [] else [c]

/-- **But for underscores, snake case is the letters of one character after the other**, whatever
stands before the text. -/
theorem without_isBar_snakeFrom (prev : Option Char) (barred : Bool) (s : List Char) :
    without isBar (snakeFrom prev barred s) = without isBar (s.flatMap letters) := by
  have hword : ∀ b : Bool, without isBar (if b then ['_'] else []) = [] := by
    intro b
    cases b <;> rfl
  have hgap : ∀ b : Bool, without isBar (if b then [] else ['_']) = [] := by
    intro b
    cases b <;> rfl
  induction s generalizing prev barred with
  | nil => rfl
  | cons c s ih =>
    rw [List.flatMap_cons, without_append, snakeFrom, letters]
    split
    · dsimp only
      rw [without_append, without_append, hword, List.nil_append, ih]
    · split
      · rw [without_append, hgap, ih]
        rfl
      · rw [← List.singleton_append, without_append, ih]

theorem mem_letters_of_mem_snakeFrom {prev : Option Char} {barred : Bool}
    (h : c ∈ snakeFrom prev barred s) :
    c = '_' ∨ ∃ d ∈ s, c ∈ letters d := by
  by_cases hc : c = '_'
  · exact .inl hc
  · have hmem : c ∈ without isBar (snakeFrom prev barred s) := mem_without.2 ⟨h, beq_false_of_ne hc⟩
    rw [without_isBar_snakeFrom] at hmem
    exact .inr (List.mem_flatMap.1 (mem_without.1 hmem).1)

/-- A character of snake case: no upper-case letter, no space and no hyphen. -/
def IsKept (c : Char) : Prop := isUppercase c = false ∧ c ≠ ' ' ∧ c ≠ '-'

instance (c : Char) : Decidable (IsKept c) := inferInstanceAs (Decidable (_ ∧ _))

/-- What is in snake case stays as it is, whatever stands before it. -/
theorem snakeFrom_of_isKept (h : ∀ c ∈ s, IsKept c) (prev : Option Char) (barred : Bool) :
    snakeFrom prev barred s = s := by
  induction s generalizing prev barred with
  | nil => rfl
  | cons c s ih =>
    obtain ⟨⟨hupper, hspace, hhyphen⟩, hrest⟩ := List.forall_mem_cons.1 h
    have hgap : ¬ (c = ' ' ∨ c = '-') := not_or.2 ⟨hspace, hhyphen⟩
    rw [snakeFrom, if_neg (Bool.eq_false_iff.1 hupper), if_neg hgap, ih hrest]

/-! ### ASCII texts -/

theorem isKept_of_isLower (h : c.isLower = true) : IsKept c := by
  have hascii : c.toNat < 128 := by
    simp only [Char.isLower, Bool.and_eq_true, decide_eq_true_eq, UInt32.le_iff_toNat_le] at h
    have : c.toNat ≤ 122 := h.2
    omega
  refine ⟨?_, ?_, ?_⟩
  · rw [isUppercase, if_pos hascii]
    exact Bool.eq_false_iff.2 (Char.not_isUpper_of_isLower h)
  · rintro rfl
    exact absurd h (by decide)
  · rintro rfl
    exact absurd h (by decide)

/-- What becomes of an ASCII character: its small form is put in its place, but nothing in the place
of spaces and hyphens. -/
theorem letters_cases (hc : c.toNat < 128) :
    (∃ d, letters c = [d] ∧ lowerChar c = [d] ∧ IsKept d) ∨ letters c = [] ∧ lowerChar c = [c] ∧
      (c = ' ' ∨ c = '-') := by
  have hlower : lowerChar c = [c.toLower] := by rw [lowerChar, if_pos hc]
  unfold letters
  split
  · next hupper =>
    rw [isUppercase, if_pos hc] at hupper
    have hsmall : c.toLower.isLower = true := by
      rw [Char.isLower_toLower_eq_isAlpha, Char.isAlpha, hupper, Bool.true_or]
    exact .inl ⟨c.toLower, hlower, hlower, isKept_of_isLower hsmall⟩
  · next hupper =>
    have hsame : lowerChar c = [c] := by
      rw [hlower, Char.toLower_eq_of_not_isUpper]
      rwa [isUppercase, if_pos hc] at hupper
    split
    · next hgap => exact .inr ⟨rfl, hsame, hgap⟩
    · next hgap => exact .inl ⟨c, rfl, hsame, Bool.eq_false_iff.2 hupper, not_or.1 hgap⟩

theorem isKept_of_mem_letters (hc : c.toNat < 128) : ∀ d ∈ letters c, IsKept d := by
  intro e he
  rcases letters_cases hc with ⟨d, hletters, -, hd⟩ | ⟨hletters, -, -⟩
  · rw [hletters, List.mem_singleton] at he
    rwa [he]
  · rw [hletters] at he
    exact absurd he List.not_mem_nil

theorem without_isBar_letters (hc : c.toNat < 128) :
    without isBar (letters c) = without isGap (lowerChar c) := by
  rcases letters_cases hc with ⟨d, hletters, hlower, -, hspace, hhyphen⟩ | ⟨hletters, hlower, hgap⟩
  · have hclass : isGap d = isBar d := by
      rw [isGap, beq_false_of_ne hspace, beq_false_of_ne hhyphen, Bool.or_false,
        Bool.or_false, isBar]
    rw [hletters, hlower, without, without, List.filter_singleton, List.filter_singleton, hclass]
  · rw [hletters, hlower]
    rcases hgap with rfl | rfl <;> rfl

theorem isKept_of_mem_snakeCase (hs : ∀ c ∈ s, c.toNat < 128) : ∀ c ∈ snakeCase s, IsKept c := by
  intro c hc
  rcases mem_letters_of_mem_snakeFrom hc with rfl | ⟨d, hd, hc⟩
  · decide
  · exact isKept_of_mem_letters (hs d hd) c hc

/-- **Snake case is a normal form of ASCII texts.** It has no upper-case letter, no space and no
hyphen, and a text without these is in it already; and apart from what stands between words, it is
the text in lower case. -/
theorem snakeCase_normalizes {s : List Char} (hs : ∀ c ∈ s, c.toNat < 128) :
    (∀ c ∈ snakeCase s, IsKept c) ∧ (snakeCase s = s ↔ ∀ c ∈ s, IsKept c) ∧
      without isBar (snakeCase s) = without isGap (lower s) ∧
        snakeCase (snakeCase s) = snakeCase s := by
  have hkept := isKept_of_mem_snakeCase hs
  refine ⟨hkept, ⟨?_, fun h => snakeFrom_of_isKept h none false⟩, ?_,
    snakeFrom_of_isKept hkept none false⟩
  · intro h
    rwa [h] at hkept
  · calc without isBar (snakeCase s) = s.flatMap fun c => without isBar (letters c) := by
          rw [snakeCase, without_isBar_snakeFrom, without_flatMap]
      _ = s.flatMap fun c => without isGap (lowerChar c) :=
          List.flatMap_congr fun c hc => without_isBar_letters (hs c hc)
      _ = without isGap (lower s) := by rw [lower, without_flatMap]

/-- Acronyms, numbers, and marks of all kinds between words. -/
def mixedName : List Char := "USDCoin2Go_ -LPToken--v2 _X".toList

theorem snakeCase_normalizes_mixed :
    (∀ c ∈ mixedName, c.toNat < 128) ∧ snakeCase mixedName = "usd_coin2_go_lp_token_v2__x".toList ∧
      (∀ c ∈ snakeCase mixedName, IsKept c) ∧
        (snakeCase mixedName = mixedName ↔ ∀ c ∈ mixedName, IsKept c) ∧
      without isBar (snakeCase mixedName) = without isGap (lower mixedName) ∧
      snakeCase (snakeCase mixedName) = snakeCase mixedName := by
  have hall : mixedName.all (fun c => decide (c.toNat < 128)) = true := by decide
  have hascii : ∀ c ∈ mixedName, c.toNat < 128 :=
    fun c hc => of_decide_eq_true (List.all_eq_true.1 hall c hc)
  exact ⟨hascii, by decide, snakeCase_normalizes hascii⟩

end PseudoMove.Identifier
