import PseudoMove.Machine
import PseudoMove.Proofs.NormalForms
import Mathlib

/-!
# The shape of names

Whatever text a listing gives for a type, the name made from it has no space in it, ends with a
letter, a number or an underscore, and is not a number (`IsName`). This is all that telling names
from literals, from placeholders and from the marks around them takes. A name need not be an
identifier: what a coin holds goes into the coin's name with whatever marks it has.

The main statements are `isName_nameFor` for names made from types and `isName_parameterBase` for
parameters; numbering a name keeps its shape (`IsName.append_number`).
-/

namespace PseudoMove

open Text Identifier Naming TypeText Remark

/-- The shape that every name given out has. -/
structure IsName (n : String) : Prop where
  noSpace : ' ' ∉ n.toList
  ends : n.toList.getLast?.any isPart = true
  notNumber : n.toList.all Char.isDigit = false

instance (n : String) : Decidable (IsName n) :=
  decidable_of_iff (' ' ∉ n.toList ∧ n.toList.getLast?.any isPart = true ∧
    n.toList.all Char.isDigit = false) ⟨fun h => ⟨h.1, h.2.1, h.2.2⟩, fun h => ⟨h.1, h.2, h.3⟩⟩

/-! ## Characters -/

theorem isPart_of_isDigit {c : Char} (h : c.isDigit = true) : isPart c = true := by
  simp [isPart, isAlphanumeric, isNumeric_of_isDigit h]

theorem isDigit_of_isAlphabetic {c : Char} (h : isAlphabetic c = true) : c.isDigit = false := by
  rw [← Bool.not_eq_true]
  intro hd
  have hn := toNat_of_isDigit hd
  have hc : c.toNat < 128 := by omega
  simp only [isAlphabetic, hc, if_true, Char.isAlpha, Char.isUpper, Char.isLower, Bool.or_eq_true,
    Bool.and_eq_true, decide_eq_true_eq, ge_iff_le, UInt32.le_iff_toNat_le] at h
  rcases h with h | h
  · have : 65 ≤ c.toNat := h.1
    omega
  · have : 97 ≤ c.toNat := h.1
    omega

/-! ## Putting names together -/

/-- A text of letters, numbers and underscores that is not a number is a name. -/
theorem isName_of_isPart {s : List Char} (hp : ∀ c ∈ s, isPart c = true)
    (hd : ∃ c ∈ s, c.isDigit = false) : IsName (String.ofList s) := by
  obtain ⟨d, hd, hdd⟩ := hd
  refine ⟨?_, ?_, ?_⟩
  · rw [String.toList_ofList]
    intro h
    exact absurd (hp _ h) (by decide)
  · rw [String.toList_ofList]
    have hne : s ≠ [] := List.ne_nil_of_mem hd
    rw [List.getLast?_eq_some_getLast hne]
    exact hp _ (List.getLast_mem hne)
  · rw [String.toList_ofList, ← Bool.not_eq_true, List.all_eq_true]
    intro h
    rw [h d hd] at hdd
    exact absurd hdd (by decide)

/-- A name is made by putting a word that is one after any text without spaces. -/
theorem IsName.append_left {a : String} (ha : ' ' ∉ a.toList) {n : String} (hn : IsName n) :
    IsName (a ++ n) := by
  have hne : n.toList ≠ [] := by
    intro h
    have := hn.ends
    rw [h] at this
    exact absurd this (by decide)
  refine ⟨?_, ?_, ?_⟩
  · rw [String.toList_append, List.mem_append]
    rintro (h | h)
    · exact ha h
    · exact hn.noSpace h
  · rw [String.toList_append, List.getLast?_append, List.getLast?_eq_some_getLast hne,
      Option.some_or, ← List.getLast?_eq_some_getLast hne]
    exact hn.ends
  · rw [String.toList_append, List.all_append, hn.notNumber, Bool.and_false]

/-- A name goes on with letters, numbers and underscores. -/
theorem IsName.append_right {n b : String} (hn : IsName n) (hb : b.toList.all isPart = true) :
    IsName (n ++ b) := by
  rw [List.all_eq_true] at hb
  refine ⟨?_, ?_, ?_⟩
  · rw [String.toList_append, List.mem_append]
    rintro (h | h)
    · exact hn.noSpace h
    · exact absurd (hb _ h) (by decide)
  · rw [String.toList_append]
    by_cases hne : b.toList = []
    · rw [hne, List.append_nil]
      exact hn.ends
    · rw [List.getLast?_append, List.getLast?_eq_some_getLast hne, Option.some_or]
      exact hb _ (List.getLast_mem hne)
  · rw [String.toList_append, List.all_append, hn.notNumber, Bool.false_and]

theorem all_isPart_toString (k : Nat) : (toString k).toList.all isPart = true := by
  rw [List.all_eq_true, Nat.toString_eq_repr, Nat.toList_repr]
  intro c hc
  exact isPart_of_isDigit (isDigit_of_mem_toDigits hc)

theorem IsName.append_number {n : String} (hn : IsName n) (k : Nat) :
    IsName (n ++ "_" ++ toString k) :=
  (hn.append_right (by decide)).append_right (all_isPart_toString k)

theorem IsName.ne_of_not {n s : String} (hn : IsName n) (hs : ¬ IsName s) : n ≠ s := by
  rintro rfl
  exact hs hn

/-! ## Snake case and sanitizing -/

/-- The lower-case form of a code point from the small letters on is another one of these. -/
theorem le_lowerCode {n : Nat} (hn : 97 ≤ n) : 97 ≤ lowerCode loweringRuns n := by
  have hruns : (loweringRuns.all fun r => decide ((97 : Int) ≤ r.1 + r.2.2.2)) = true := by decide
  unfold lowerCode
  split
  · next r hr =>
    have h1 := of_decide_eq_true (List.all_eq_true.1 hruns r (List.mem_of_find?_eq_some hr))
    have h2 := List.find?_some hr
    simp only [Bool.and_eq_true, decide_eq_true_eq] at h2
    have := h2.1.1
    omega
  · exact hn

/-- The lower-case form of a character is a character: no run is lowered into the
surrogates or beyond them. -/
theorem isValidChar_lowerCode (c : Char) : (lowerCode loweringRuns c.toNat).isValidChar := by
  have hruns : (loweringRuns.all fun r => decide (r.2.1 + r.2.2.2 < 0xD800 ∨
      0xDFFF < r.1 + r.2.2.2 ∧ r.2.1 + r.2.2.2 < 0x110000)) = true := by decide
  unfold lowerCode
  split
  · next r hr =>
    have h1 := of_decide_eq_true (List.all_eq_true.1 hruns r (List.mem_of_find?_eq_some hr))
    have h2 := List.find?_some hr
    simp only [Bool.and_eq_true, decide_eq_true_eq] at h2
    obtain ⟨⟨hlo, hhi⟩, -⟩ := h2
    unfold Nat.isValidChar
    omega
  · exact c.valid

theorem le_toNat_of_mem_lowerChar {c d : Char} (h : isUppercase c = true) (hd : d ∈ lowerChar c) :
    97 ≤ d.toNat := by
  have ascii : ∀ n < 128, (Char.ofNat n).isUpper = true → 97 ≤ (Char.ofNat n).toLower.toNat := by
    decide
  unfold lowerChar at hd
  split at hd
  · next hc =>
    have := ascii c.toNat hc
    rw [Char.ofNat_toNat] at this
    rw [List.mem_singleton.1 hd]
    exact this (by simpa [isUppercase, hc] using h)
  · next hc =>
    split at hd
    · simp only [List.mem_cons, List.not_mem_nil, or_false] at hd
      rcases hd with rfl | rfl <;> decide
    · rw [List.mem_singleton.1 hd, Char.ofNat, dif_pos (isValidChar_lowerCode c)]
      exact le_lowerCode (by omega)

/-- The characters of a text in snake case: an underscore, a letter made small, or one of the
text that is no space. -/
theorem mem_snakeFrom {s : List Char} {prev : Option Char} {barred : Bool} {c : Char}
    (h : c ∈ snakeFrom prev barred s) : c = '_' ∨ 97 ≤ c.toNat ∨ c ∈ s ∧ c ≠ ' ' := by
  rcases mem_letters_of_mem_snakeFrom h with hbar | ⟨d, hd, hc⟩
  · exact Or.inl hbar
  · unfold letters at hc
    split at hc
    · next hupper => exact Or.inr (Or.inl (le_toNat_of_mem_lowerChar hupper hc))
    · split at hc
      · exact absurd hc List.not_mem_nil
      · next hgap =>
        obtain rfl := List.mem_singleton.1 hc
        exact Or.inr (Or.inr ⟨hd, fun e => hgap (Or.inl e)⟩)

theorem mem_snake {base : List Char} {c : Char} (h : c ∈ (snake base).toList) :
    c = '_' ∨ 97 ≤ c.toNat ∨ c ∈ base ∧ c ≠ ' ' := by
  rw [snake, String.toList_ofList] at h
  exact mem_snakeFrom h

theorem space_notMem_snake (base : List Char) : ' ' ∉ (snake base).toList := by
  intro h
  rcases mem_snake h with h | h | ⟨-, h⟩
  · exact absurd h (by decide)
  · exact absurd h (by decide)
  · exact h rfl

/-- An identifier begins with a character that is no digit. -/
theorem isName_of_isValid {s : List Char} (h : isValid s = true) : IsName (String.ofList s) := by
  refine isName_of_isPart (isPart_of_isValid h) ?_
  cases s with
  | nil => exact absurd h (by decide)
  | cons c s =>
    simp only [isValid, Bool.and_eq_true, Bool.or_eq_true, beq_iff_eq] at h
    refine ⟨c, List.mem_cons_self, ?_⟩
    rcases h.1 with ha | rfl
    · exact isDigit_of_isAlphabetic ha
    · decide

theorem isName_sanitize (s : List Char) : IsName (String.ofList (sanitize s)) :=
  isName_of_isValid (isValid_sanitize s)

/-! ## Names from types -/

/-- What holds a currency is a coin or a balance, and named so. -/
theorem snake_of_holdsCurrency {base : List Char} (h : holdsCurrency (String.ofList base) = true) :
    snake base = "coin" ∨ snake base = "balance" := by
  simp only [holdsCurrency, Bool.or_eq_true, decide_eq_true_eq] at h
  rcases h with h | h
  · have : base = "Coin".toList := by rw [← h, String.toList_ofList]
    subst this
    exact Or.inl (by decide)
  · have : base = "Balance".toList := by rw [← h, String.toList_ofList]
    subst this
    exact Or.inr (by decide)

theorem isName_snake_of_holdsCurrency {base : List Char}
    (h : holdsCurrency (String.ofList base) = true) : IsName (snake base) := by
  rcases snake_of_holdsCurrency h with e | e <;> rw [e] <;> decide

theorem isName_coinName {base : List Char} (h : holdsCurrency (String.ofList base) = true)
    (args : List (List Char)) : IsName (coinName base args) := by
  have hb := isName_snake_of_holdsCurrency h
  unfold coinName
  split
  · exact hb
  · next arg _ =>
    dsimp only
    split
    · exact hb
    · refine IsName.append_left ?_ hb
      rw [String.toList_append, List.mem_append]
      rintro (h | h)
      · exact space_notMem_snake _ h
      · exact absurd h (by decide)

theorem IsName.plural {n : String} (hn : IsName n) : IsName (plural n) := by
  unfold Naming.plural
  split
  · exact hn.append_right (by decide)
  · exact hn.append_right (by decide)

theorem isName_ordinaryName (base : List Char) : IsName (ordinaryName base) := by
  unfold ordinaryName
  split
  · decide
  · exact isName_sanitize _

theorem isName_of_wellKnown {base name : String} (h : wellKnown.lookup base = some name) :
    IsName name := by
  have hall : ∀ p ∈ wellKnown, IsName p.2 := by decide
  obtain ⟨l₁, l₂, he, -⟩ := List.lookup_eq_some_iff.1 h
  exact hall (base, name) (by rw [he]; simp)

theorem isName_plainName (ty : List Char) : IsName (plainName ty) := by
  fun_induction plainName ty with
  | case1 ty base h => exact isName_coinName h _
  | case2 => decide
  | case3 => decide
  | case4 ty base h hv elem rest he hu ih => exact ih.plural
  | case5 ty base h hv name hn => exact isName_of_wellKnown hn
  | case6 => exact isName_ordinaryName _

/-- All names that a function may imply. -/
def impliedNames : List String :=
  ["coin_in", "coin_out", "coin", "coin_to_burn", "balance_in", "balance_out", "balance",
    "balance_to_burn", "amount_in", "min_amount_out", "recipient", "payment", "amount"]

/-- What a function implies is a fixed word, or the kind of a coin with a fixed ending. -/
theorem mem_impliedNames {ty : List Char} {ctx : NameContext} {name : String}
    (h : impliedName ty ctx = some name) : name ∈ impliedNames := by
  unfold impliedName at h
  obtain ⟨f, -, h⟩ := Option.bind_eq_some_iff.1 h
  generalize lower f.toList = function at h
  dsimp only at h
  by_cases hc : holdsCurrency (String.ofList (baseName ty)) = true
  · have hk := snake_of_holdsCurrency hc
    simp only [hc, if_true] at h
    generalize snake (baseName ty) = kind at h hk
    repeat' split at h
    all_goals
      first
      | exact absurd h (by simp only [reduceCtorEq, not_false_eq_true])
      | rw [← Option.some.inj h]
        rcases hk with rfl | rfl <;> decide
  · simp only [hc, Bool.false_eq_true, if_false] at h
    repeat' split at h
    all_goals
      first
      | exact absurd h (by simp only [reduceCtorEq, not_false_eq_true])
      | rw [← Option.some.inj h]
        decide

theorem isName_of_impliedName {ty : List Char} {ctx : NameContext} {name : String}
    (h : impliedName ty ctx = some name) : IsName name := by
  have hall : ∀ n ∈ impliedNames, IsName n := by decide
  exact hall name (mem_impliedNames h)

theorem IsName.escapeReserved {n : String} (hn : IsName n) : IsName (escapeReserved n) := by
  unfold Naming.escapeReserved
  split
  · exact hn.append_right (by decide)
  · exact hn

/-- **Every type makes a name**, whatever its text. -/
theorem isName_nameFor (ty : List Char) (ctx : NameContext) : IsName (nameFor ty ctx) := by
  refine IsName.escapeReserved ?_
  cases h : impliedName ty ctx with
  | none => exact isName_plainName ty
  | some name => exact isName_of_impliedName h

theorem isName_parameterBase (h : FunctionHeader) (i : Nat) (p : Parameter) :
    IsName (Machine.parameterBase h i p) := by
  unfold Machine.parameterBase
  dsimp only
  split
  · exact isName_nameFor _ _
  · exact isName_sanitize _

theorem isName_localBase (slot : Slot) (ty : Option (List Char)) :
    IsName (Machine.localBase slot ty) := by
  cases ty with
  | some ty => exact isName_nameFor ty {}
  | none =>
    cases slot with
    | arg n => exact IsName.append_right (n := "arg") (by decide) (all_isPart_toString n)
    | loc n => exact IsName.append_right (n := "loc") (by decide) (all_isPart_toString n)

end PseudoMove
