/-!
# Machine words

Numbers in a listing are 64-bit words: offsets, slots, element counts and the settings of a
configuration. A number is read exactly, and one that does not fit is no number.
-/

namespace PseudoMove.Text

/-- One more than the largest word. -/
def wordLimit : Nat := UInt64.size

/-- The value of a list of decimal digits. -/
def digitsValue (ds : List Char) : Nat :=
  ds.foldl (fun n d => 10 * n + (d.toNat - '0'.toNat)) 0

/-- The word that ASCII digits denote: at least one digit, and a value below the limit. -/
def readDigits? (ds : List Char) : Option Nat :=
  if ds ≠ [] ∧ ds.all Char.isDigit ∧ digitsValue ds < wordLimit then some (digitsValue ds) else none

/-- Reads a word, with an optional plus sign before its digits. -/
def readWord? : List Char → Option Nat
  | '+' :: ds => readDigits? ds
  | ds => readDigits? ds

theorem lt_of_readDigits? {ds : List Char} {n : Nat} (h : readDigits? ds = some n) :
    n < wordLimit := by
  unfold readDigits? at h
  split at h
  · next hd => cases h; exact hd.2.2
  · simp at h

theorem lt_of_readWord? {ds : List Char} {n : Nat} (h : readWord? ds = some n) : n < wordLimit := by
  unfold readWord? at h
  split at h <;> exact lt_of_readDigits? h

theorem toDigits_ne_nil (n : Nat) : Nat.toDigits 10 n ≠ [] := by
  intro h
  have := Nat.length_toDigits_pos (b := 10) (n := n)
  rw [h] at this
  exact absurd this (by decide)

theorem isDigit_of_mem_toDigits {n : Nat} {c : Char} (h : c ∈ Nat.toDigits 10 n) :
    c.isDigit = true := Nat.isDigit_of_mem_toDigits (by decide) (by decide) h

theorem digitsValue_toDigits (n : Nat) : digitsValue (Nat.toDigits 10 n) = n := by
  unfold digitsValue
  rw [← Nat.ofDigitChars_eq_foldl, Nat.ofDigitChars_ten_toDigits]

/-- A word is read back from its decimal digits. -/
theorem readDigits?_toDigits {n : Nat} (h : n < wordLimit) :
    readDigits? (Nat.toDigits 10 n) = some n := by
  unfold readDigits?
  rw [digitsValue_toDigits, if_pos]
  exact ⟨toDigits_ne_nil n, List.all_eq_true.2 fun c hc => isDigit_of_mem_toDigits hc, h⟩

end PseudoMove.Text
