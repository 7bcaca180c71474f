/-!
# Blanks

The characters with the Unicode property `White_Space`, and what it means to trim a text of them.
Every recogniser of the library works on the characters of a line and skips exactly these.
-/

namespace PseudoMove.Text

/-- A character with the property `White_Space`. -/
def isBlank (c : Char) : Bool :=
  let n := c.toNat
  (9 ≤ n && n ≤ 13) || n == 32 || n == 0x85 || n == 0xA0 || n == 0x1680 ||
    (0x2000 ≤ n && n ≤ 0x200A) || n == 0x2028 || n == 0x2029 || n == 0x202F || n == 0x205F ||
    n == 0x3000

/-- A text without its longest run of characters in the class `p` at the end. -/
def dropEndWhile (p : Char → Bool) (s : List Char) : List Char :=
  (s.reverse.dropWhile p).reverse

/-- A text without the blanks before its first other character. -/
def trimStart (s : List Char) : List Char := s.dropWhile isBlank

/-- A text without the blanks after its last other character. -/
def trimEnd (s : List Char) : List Char := dropEndWhile isBlank s

/-- A text without blanks at either end. -/
def trim (s : List Char) : List Char := trimEnd (trimStart s)

/-- A string without blanks at either end. -/
def trimmed (s : String) : String := String.ofList (trim s.toList)

theorem length_dropEndWhile_le (p : Char → Bool) (s : List Char) :
    (dropEndWhile p s).length ≤ s.length := by
  have := (List.dropWhile_suffix p (l := s.reverse)).length_le
  simpa [dropEndWhile] using this

theorem length_trim_le (s : List Char) : (trim s).length ≤ s.length :=
  Nat.le_trans (length_dropEndWhile_le _ _) (List.dropWhile_suffix _).length_le

/-- What is dropped from the beginning of a text is all of one class, so nothing else is missing. -/
theorem filter_dropWhile (p : Char → Bool) (s : List Char) :
    (s.dropWhile p).filter (fun c => !p c) = s.filter fun c => !p c := by
  induction s with
  | nil => rfl
  | cons c s ih =>
    by_cases hc : p c = true
    · rw [List.dropWhile_cons_of_pos hc, List.filter_cons_of_neg (by simp [hc]), ih]
    · rw [List.dropWhile_cons_of_neg hc]

/-- Nor is anything else missing from the end. -/
theorem filter_dropEndWhile (p : Char → Bool) (s : List Char) :
    (dropEndWhile p s).filter (fun c => !p c) = s.filter fun c => !p c := by
  rw [dropEndWhile, List.filter_reverse, filter_dropWhile, List.filter_reverse, List.reverse_reverse]

theorem dropWhile_of_forall {p : Char → Bool} {s : List Char} (h : ∀ c ∈ s, p c = false) :
    s.dropWhile p = s := by
  cases s with
  | nil => rfl
  | cons c s => rw [List.dropWhile_cons_of_neg (by rw [h c List.mem_cons_self]; decide)]

theorem trim_of_forall {s : List Char} (h : ∀ c ∈ s, isBlank c = false) : trim s = s := by
  unfold trim trimStart trimEnd dropEndWhile
  rw [dropWhile_of_forall h, dropWhile_of_forall fun c hc => h c (List.mem_reverse.1 hc),
    List.reverse_reverse]

end PseudoMove.Text
