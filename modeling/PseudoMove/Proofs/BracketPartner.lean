import PseudoMove.Proofs.BracketedList
import Mathlib

/-!
# The partner of a bracket

A partner is looked for by counting brackets, without regard to their kinds.  Counted are
characters, found are offsets in bytes; no byte of a character outside ASCII stands for a bracket
(`utf8EncodeChar_of_plain`), so the count of a piece of text is the count of its bytes (`balance`).

* `balance_take_nonneg` — up to the partner no more brackets close than were open;
* `isLeast_levels` — the partner is where, for the first time, as many have closed as opened;
* `Nested.exists_group` — in a text that is nested properly (`Nested`), each opening bracket begins
  a group;
* `partner?_closes_group` — what is found in any text, from any offset.
-/

namespace PseudoMove.Bracket

open Text Listing

/-! ## Offsets -/

theorem byteLength_append (s t : List Char) :
    byteLength (s ++ t) = byteLength s + byteLength t := by
  rw [byteLength, String.ofList_append, String.utf8ByteSize_append]
  rfl

theorem byteLength_singleton (c : Char) : byteLength [c] = c.utf8Size := by
  simp [byteLength]

theorem byteLength_cons (c : Char) (s : List Char) :
    byteLength (c :: s) = c.utf8Size + byteLength s := by
  rw [← List.singleton_append, byteLength_append, byteLength_singleton]

/-- No character takes less than a byte. -/
theorem length_le_byteLength (s : List Char) : s.length ≤ byteLength s := by
  induction s with
  | nil => exact Nat.zero_le _
  | cons c s ih =>
    have := c.utf8Size_pos
    rw [byteLength_cons, List.length_cons]
    omega

theorem eq_append_of_dropBytes? {n : Nat} {s r : List Char} (h : dropBytes? n s = some r) :
    ∃ before, s = before ++ r ∧ byteLength before = n := by
  induction s generalizing n with
  | nil =>
    cases n with
    | zero => exact ⟨[], (Option.some.inj h), rfl⟩
    | succ n => simp [dropBytes?] at h
  | cons c s ih =>
    cases n with
    | zero => exact ⟨[], (Option.some.inj h), rfl⟩
    | succ n =>
      unfold dropBytes? at h
      split at h
      · next hle =>
        obtain ⟨before, rfl, hb⟩ := ih h
        refine ⟨c :: before, rfl, ?_⟩
        rw [byteLength_cons, hb]
        omega
      · simp at h

theorem dropBytes?_append (before r : List Char) :
    dropBytes? (byteLength before) (before ++ r) = some r := by
  induction before with
  | nil => cases r <;> rfl
  | cons c before ih =>
    obtain ⟨n, hn⟩ : ∃ n, byteLength (c :: before) = n + 1 := by
      refine Nat.exists_eq_succ_of_ne_zero ?_
      have := c.utf8Size_pos
      rw [byteLength_cons]
      omega
    have hrest : n + 1 - c.utf8Size = byteLength before := by
      rw [← hn, byteLength_cons]
      omega
    rw [hn, List.cons_append, dropBytes?, if_pos (by rw [← hn, byteLength_cons]; omega), hrest, ih]

theorem utf8Size_of_isOpening {c : Char} (h : isOpening c = true) : c.utf8Size = 1 := by
  simp only [isOpening, Bool.or_eq_true, beq_iff_eq] at h
  rcases h with ((rfl | rfl) | rfl) | rfl <;> rfl

theorem utf8Size_of_isClosing {c : Char} (h : isClosing c = true) : c.utf8Size = 1 := by
  simp only [isClosing, Bool.or_eq_true, beq_iff_eq] at h
  rcases h with ((rfl | rfl) | rfl) | rfl <;> rfl

/-- **An offset found is the offset of a bracket**: the text falls apart there between two
characters, and at the offset it was looked for from. -/
theorem partner?_eq_some {s : List Char} {index offset : Nat} (h : partner? s index = some offset) :
    ∃ before bra inside ket after, s = before ++ bra :: inside ++ ket :: after ∧
      isOpening bra = true ∧ isClosing ket = true ∧
      byteLength before = index ∧ byteLength (before ++ bra :: inside) = offset := by
  unfold partner? at h
  split at h
  · next o r hdrop =>
    rw [Option.ite_none_right_eq_some] at h
    obtain ⟨ho, h⟩ := h
    obtain ⟨p, hp, rfl⟩ := Option.map_eq_some_iff.1 h
    obtain ⟨before, rfl, hb⟩ := eq_append_of_dropBytes? hdrop
    obtain ⟨c, hc, rfl⟩ := eq_of_splitAtClose hp
    refine ⟨before, o, p.1, c, p.2, by simp, ho, hc, hb, ?_⟩
    rw [byteLength_append, byteLength_cons, utf8Size_of_isOpening ho, hb]
    omega
  · simp at h

/-- The partner of the bracket behind a text. -/
theorem partner?_append {o : Char} (ho : isOpening o = true) (before rest : List Char) :
    partner? (before ++ o :: rest) (byteLength before) =
      (enclosed? rest).map fun p => byteLength before + 1 + byteLength p.1 := by
  rw [partner?, dropBytes?_append]
  exact if_pos ho

/-! ## Bytes -/

/-- The bytes of a text in UTF-8. -/
def utf8 (s : List Char) : List UInt8 := (String.ofList s).toByteArray.data.toList

theorem utf8_eq_flatMap (s : List Char) : utf8 s = s.flatMap String.utf8EncodeChar := by
  rw [utf8, String.toByteArray_ofList, List.utf8Encode, List.toList_data_toByteArray]

@[simp] theorem utf8_nil : utf8 [] = [] := utf8_eq_flatMap []

theorem utf8_cons (c : Char) (s : List Char) :
    utf8 (c :: s) = String.utf8EncodeChar c ++ utf8 s := by
  rw [utf8_eq_flatMap, List.flatMap_cons, ← utf8_eq_flatMap]

@[simp] theorem utf8_append (s t : List Char) : utf8 (s ++ t) = utf8 s ++ utf8 t := by
  rw [utf8_eq_flatMap, List.flatMap_append, ← utf8_eq_flatMap, ← utf8_eq_flatMap]

theorem length_utf8 (s : List Char) : (utf8 s).length = byteLength s := by
  induction s with
  | nil => rw [utf8_nil]; rfl
  | cons c s ih =>
    rw [utf8_cons, List.length_append, String.length_utf8EncodeChar, ih, byteLength_cons]

/-- A byte that is an opening bracket of any kind. -/
def isOpeningByte (b : UInt8) : Bool := ['<', '(', '[', '{'].any fun c => c.toUInt8 == b

/-- A byte that is a closing bracket of any kind. -/
def isClosingByte (b : UInt8) : Bool := ['>', ')', ']', '}'].any fun c => c.toUInt8 == b

theorem utf8EncodeChar_of_lt {c : Char} (h : c.toNat < 128) :
    String.utf8EncodeChar c = [c.toUInt8] := by
  have hval : c.val.toNat ≤ 127 := Nat.le_of_lt_succ h
  unfold String.utf8EncodeChar
  dsimp only
  rw [if_pos hval]
  rfl

/-- Outside ASCII all bytes are large. -/
theorem le_of_mem_utf8EncodeChar {c : Char} (h : 128 ≤ c.toNat) {b : UInt8}
    (hb : b ∈ String.utf8EncodeChar c) :
    128 ≤ b.toNat := by
  have hval : ¬c.val.toNat ≤ 127 := Nat.not_le_of_lt h
  unfold String.utf8EncodeChar at hb
  dsimp only at hb
  rw [if_neg hval] at hb
  split at hb
  · simp only [List.mem_cons, List.not_mem_nil, or_false] at hb
    rcases hb with rfl | rfl <;> simp <;> omega
  · split at hb
    · simp only [List.mem_cons, List.not_mem_nil, or_false] at hb
      rcases hb with rfl | rfl | rfl <;> simp <;> omega
    · simp only [List.mem_cons, List.not_mem_nil, or_false] at hb
      rcases hb with rfl | rfl | rfl | rfl <;> simp <;> omega

theorem toNat_lt_of_isBracketByte {b : UInt8}
    (h : isOpeningByte b = true ∨ isClosingByte b = true) : b.toNat < 128 := by
  simp only [isOpeningByte, isClosingByte, List.any_cons, List.any_nil, Bool.or_false,
    Bool.or_eq_true, beq_iff_eq] at h
  rcases h with (rfl | rfl | rfl | rfl) | (rfl | rfl | rfl | rfl) <;> decide

/-- In ASCII, bytes are brackets as their characters are. -/
theorem isBracketByte_toUInt8 {c : Char} (h : c.toNat < 128) :
    isOpeningByte c.toUInt8 = isOpening c ∧ isClosingByte c.toUInt8 = isClosing c := by
  have hascii : ∀ n < 128, isOpeningByte (Char.ofNat n).toUInt8 = isOpening (Char.ofNat n) ∧
      isClosingByte (Char.ofNat n).toUInt8 = isClosing (Char.ofNat n) := by decide
  have := hascii c.toNat h
  rwa [Char.ofNat_toNat] at this

theorem toNat_lt_of_isBracket {c : Char} (h : isOpening c = true ∨ isClosing c = true) :
    c.toNat < 128 := by
  simp only [isOpening, isClosing, Bool.or_eq_true, beq_iff_eq] at h
  rcases h with (((rfl | rfl) | rfl) | rfl) | (((rfl | rfl) | rfl) | rfl) <;> decide

/-- No byte of another character is a bracket. -/
theorem utf8EncodeChar_of_plain {c : Char} (ho : isOpening c = false) (hc : isClosing c = false)
    {b : UInt8} (hb : b ∈ String.utf8EncodeChar c) :
    isOpeningByte b = false ∧ isClosingByte b = false := by
  by_cases hascii : c.toNat < 128
  · rw [utf8EncodeChar_of_lt hascii, List.mem_singleton] at hb
    obtain ⟨hopen, hclose⟩ := isBracketByte_toUInt8 hascii
    rw [hb, hopen, hclose]
    exact ⟨ho, hc⟩
  · have hlarge := le_of_mem_utf8EncodeChar (Nat.le_of_not_lt hascii) hb
    have hnot : ¬(isOpeningByte b = true ∨ isClosingByte b = true) := fun h =>
      absurd (toNat_lt_of_isBracketByte h) (Nat.not_lt_of_le hlarge)
    simpa using hnot

/-! ## Counting brackets -/

/-- The opening brackets among some bytes less the closing ones. -/
def balance (bs : List UInt8) : Int := (bs.countP isOpeningByte : Int) - bs.countP isClosingByte

@[simp] theorem balance_nil : balance [] = 0 := rfl

@[simp] theorem balance_append (a b : List UInt8) : balance (a ++ b) = balance a + balance b := by
  simp only [balance, List.countP_append]
  omega

theorem balance_of_plain {bs : List UInt8}
    (h : ∀ b ∈ bs, isOpeningByte b = false ∧ isClosingByte b = false) :
    balance bs = 0 := by
  have ho : bs.countP isOpeningByte = 0 := List.countP_eq_zero.2 fun b hb => by simp [(h b hb).1]
  have hc : bs.countP isClosingByte = 0 := List.countP_eq_zero.2 fun b hb => by simp [(h b hb).2]
  rw [balance, ho, hc]
  rfl

theorem isClosing_of_isOpening {c : Char} (h : isOpening c = true) : isClosing c = false := by
  rw [← Bool.not_eq_true]
  intro hc
  exact absurd (h.symm.trans (isOpening_of_isClosing hc)) (by decide)

theorem balance_opening {c : Char} (h : isOpening c = true) (bs : List UInt8) :
    balance (c.toUInt8 :: bs) = balance bs + 1 := by
  obtain ⟨ho, hc⟩ := isBracketByte_toUInt8 (toNat_lt_of_isBracket (.inl h))
  rw [h] at ho
  rw [isClosing_of_isOpening h] at hc
  rw [balance, balance, List.countP_cons_of_pos ho, List.countP_cons_of_neg (by simp [hc])]
  omega

theorem balance_closing {c : Char} (h : isClosing c = true) (bs : List UInt8) :
    balance (c.toUInt8 :: bs) = balance bs - 1 := by
  obtain ⟨ho, hc⟩ := isBracketByte_toUInt8 (toNat_lt_of_isBracket (.inr h))
  rw [isOpening_of_isClosing h] at ho
  rw [h] at hc
  rw [balance, balance, List.countP_cons_of_pos hc, List.countP_cons_of_neg (by simp [ho])]
  omega

theorem utf8_cons_of_isBracket {c : Char} (h : isOpening c = true ∨ isClosing c = true)
    (s : List Char) :
    utf8 (c :: s) = c.toUInt8 :: utf8 s := by
  rw [utf8_cons, utf8EncodeChar_of_lt (toNat_lt_of_isBracket h)]
  rfl

/-- The bytes of another character count for nothing. -/
theorem balance_utf8EncodeChar {c : Char} (ho : isOpening c = false)
    (hc : isClosing c = false) (n : Nat) :
    balance ((String.utf8EncodeChar c).take n) = 0 :=
  balance_of_plain fun _ hb => utf8EncodeChar_of_plain ho hc (List.mem_of_mem_take hb)

theorem isBracket_cases (c : Char) :
    isOpening c = true ∨ isClosing c = true ∨ isOpening c = false ∧ isClosing c = false := by
  cases isOpening c <;> cases isClosing c <;> simp

/-! ### The count along a search -/

section

variable {c : Char} (d : Nat) (s : List Char)

theorem splitAtClose_opening (ho : isOpening c = true) :
    splitAtClose d (c :: s) = (splitAtClose (d + 1) s).map fun r => (c :: r.1, r.2) := by
  rw [splitAtClose_cons, if_pos ho]

theorem splitAtClose_closing (hc : isClosing c = true) :
    splitAtClose (d + 1) (c :: s) = (splitAtClose d s).map fun r => (c :: r.1, r.2) := by
  rw [splitAtClose_cons, if_neg (by simp [isOpening_of_isClosing hc]), if_pos hc,
    if_neg (Nat.succ_ne_zero d)]
  rfl

theorem splitAtClose_closing_zero (hc : isClosing c = true) :
    splitAtClose 0 (c :: s) = some ([], s) := by
  rw [splitAtClose_cons, if_neg (by simp [isOpening_of_isClosing hc]), if_pos hc, if_pos rfl]

theorem splitAtClose_plain (ho : isOpening c = false) (hc : isClosing c = false) :
    splitAtClose d (c :: s) = (splitAtClose d s).map fun r => (c :: r.1, r.2) := by
  rw [splitAtClose_cons, if_neg (by simp [ho]), if_neg (by simp [hc])]

end

/-- **Up to the end of what is enclosed, no more brackets close than were open.** Without an end,
that is so everywhere. -/
theorem balance_take_nonneg {d : Nat} {s : List Char} {n : Nat}
    (h : ∀ r, splitAtClose d s = some r → n ≤ byteLength r.1) :
    0 ≤ d + balance ((utf8 s).take n) := by
  induction s generalizing d n with
  | nil => simp
  | cons c s ih =>
    -- what is enclosed behind the first character ends no sooner
    have hstep : ∀ d',
        splitAtClose d (c :: s) = (splitAtClose d' s).map (fun r => (c :: r.1, r.2)) →
        ∀ r, splitAtClose d' s = some r → n - c.utf8Size ≤ byteLength r.1 := by
      intro d' hsplit r hr
      have hlonger := h (c :: r.1, r.2) (by rw [hsplit, hr, Option.map_some])
      rw [byteLength_cons] at hlonger
      omega
    rcases isBracket_cases c with ho | hc | ⟨ho, hc⟩
    · have hrest := ih (hstep (d + 1) (splitAtClose_opening d s ho))
      rw [utf8Size_of_isOpening ho] at hrest
      rw [utf8_cons_of_isBracket (.inl ho)]
      cases n with
      | zero => simp
      | succ n =>
        rw [Nat.add_sub_cancel] at hrest
        rw [List.take_succ_cons, balance_opening ho]
        omega
    · rw [utf8_cons_of_isBracket (.inr hc)]
      cases n with
      | zero => simp
      | succ n =>
        cases d with
        | zero =>
          have hend := h ([], s) (splitAtClose_closing_zero s hc)
          exact absurd hend (by simp [byteLength])
        | succ d =>
          have hrest := ih (hstep d (splitAtClose_closing d s hc))
          rw [utf8Size_of_isClosing hc, Nat.add_sub_cancel] at hrest
          rw [List.take_succ_cons, balance_closing hc]
          omega
    · have hrest := ih (hstep d (splitAtClose_plain d s ho hc))
      rw [utf8_cons, List.take_append, balance_append, balance_utf8EncodeChar ho hc,
        String.length_utf8EncodeChar, Int.zero_add]
      exact hrest

/-- **What is enclosed closes the brackets that were open before it**, but for the last. -/
theorem balance_of_splitAtClose {d : Nat} {s : List Char} {r : List Char × List Char}
    (h : splitAtClose d s = some r) :
    d + balance (utf8 r.1) = 0 := by
  induction s generalizing d r with
  | nil => simp [splitAtClose] at h
  | cons c s ih =>
    rcases isBracket_cases c with ho | hc | ⟨ho, hc⟩
    · rw [splitAtClose_opening d s ho] at h
      obtain ⟨q, hq, rfl⟩ := Option.map_eq_some_iff.1 h
      have hrest := ih hq
      rw [utf8_cons_of_isBracket (.inl ho), balance_opening ho]
      omega
    · cases d with
      | zero =>
        rw [splitAtClose_closing_zero s hc] at h
        obtain rfl := Option.some.inj h
        simp
      | succ d =>
        rw [splitAtClose_closing d s hc] at h
        obtain ⟨q, hq, rfl⟩ := Option.map_eq_some_iff.1 h
        have hrest := ih hq
        rw [utf8_cons_of_isBracket (.inr hc), balance_closing hc]
        omega
    · rw [splitAtClose_plain d s ho hc] at h
      obtain ⟨q, hq, rfl⟩ := Option.map_eq_some_iff.1 h
      have hplain := balance_utf8EncodeChar ho hc (String.utf8EncodeChar c).length
      rw [List.take_length] at hplain
      rw [utf8_cons, balance_append, hplain, Int.zero_add]
      exact ih hq

/-! ## The least offset -/

/-- A bracket opens at a byte of a text. -/
def OpensAt (s : List Char) (i : Nat) : Prop := ∃ b, (utf8 s)[i]? = some b ∧ isOpeningByte b = true

/-- The offsets behind `i` that a text has, such that its bytes from `i` to there hold as many
opening as closing brackets. -/
def levels (s : List Char) (i : Nat) : Set Nat :=
  {j | i < j ∧ j < (utf8 s).length ∧
    ((utf8 s).extract i (j + 1)).countP isOpeningByte =
      ((utf8 s).extract i (j + 1)).countP isClosingByte}

/-- A bracket opens where the text has one as a character. -/
theorem opensAt_iff {s : List Char} {i : Nat} :
    OpensAt s i ↔ ∃ before o rest, s = before ++ o :: rest ∧ isOpening o = true ∧
      byteLength before = i := by
  constructor
  · rintro ⟨b, hb, hopen⟩
    induction s generalizing i with
    | nil => simp [utf8_nil] at hb
    | cons c s ih =>
      rw [utf8_cons] at hb
      rcases Nat.lt_or_ge i (String.utf8EncodeChar c).length with hlt | hge
      · -- the byte is one of the first character, which is the bracket then
        rw [List.getElem?_append_left hlt] at hb
        have hmem : b ∈ String.utf8EncodeChar c := List.mem_of_getElem? hb
        have hascii : c.toNat < 128 := by
          by_contra hlarge
          have := le_of_mem_utf8EncodeChar (Nat.le_of_not_lt hlarge) hmem
          have := toNat_lt_of_isBracketByte (.inl hopen)
          omega
        rw [utf8EncodeChar_of_lt hascii] at hlt hmem
        obtain rfl := List.mem_singleton.1 hmem
        rw [(isBracketByte_toUInt8 hascii).1] at hopen
        refine ⟨[], c, s, rfl, hopen, ?_⟩
        rw [List.length_singleton] at hlt
        exact (Nat.lt_one_iff.1 hlt).symm
      · rw [List.getElem?_append_right hge] at hb
        obtain ⟨before, o, rest, rfl, ho, hi⟩ := ih hb
        refine ⟨c :: before, o, rest, rfl, ho, ?_⟩
        rw [String.length_utf8EncodeChar] at hge hi
        rw [byteLength_cons, hi]
        omega
  · rintro ⟨before, o, rest, rfl, ho, rfl⟩
    refine ⟨o.toUInt8, ?_, ?_⟩
    · rw [utf8_append, utf8_cons_of_isBracket (.inl ho), ← length_utf8,
        List.getElem?_append_right le_rfl, Nat.sub_self]
      rfl
    · rw [(isBracketByte_toUInt8 (toNat_lt_of_isBracket (.inl ho))).1, ho]

section

variable {before rest : List Char} {o : Char} (ho : isOpening o = true)
include ho

/-- The offsets at which the count of what follows a bracket is one below zero. -/
theorem mem_levels_iff {j : Nat} :
    j ∈ levels (before ++ o :: rest) (byteLength before) ↔
      byteLength before < j ∧ j < byteLength before + 1 + byteLength rest ∧
        balance ((utf8 rest).take (j - byteLength before)) = -1 := by
  have hlength : (utf8 (before ++ o :: rest)).length = byteLength before + 1 + byteLength rest := by
    rw [length_utf8, byteLength_append, byteLength_cons, utf8Size_of_isOpening ho, Nat.add_assoc]
  rw [levels, Set.mem_ofPred_eq, hlength]
  refine and_congr_right fun hlt => and_congr_right fun _ => ?_
  have hslice : (utf8 (before ++ o :: rest)).extract (byteLength before) (j + 1) =
      o.toUInt8 :: (utf8 rest).take (j - byteLength before) := by
    have hwidth : j + 1 - byteLength before = j - byteLength before + 1 := by omega
    rw [List.extract_eq_take_drop, utf8_append, ← length_utf8, List.drop_left, length_utf8,
      utf8_cons_of_isBracket (.inl ho), hwidth, List.take_succ_cons]
  rw [hslice]
  have hopen := balance_opening ho ((utf8 rest).take (j - byteLength before))
  rw [balance] at hopen
  omega

/-- **Where the partner stands, the count comes back for the first time.** -/
theorem isLeast_levels {p : List Char × List Char} (hp : enclosed? rest = some p) :
    IsLeast (levels (before ++ o :: rest) (byteLength before))
      (byteLength before + 1 + byteLength p.1) := by
  constructor
  · obtain ⟨c, hc, hrest⟩ := eq_of_splitAtClose hp
    have hlength : byteLength rest = byteLength p.1 + 1 + byteLength p.2 := by
      rw [hrest, byteLength_append, byteLength_cons, utf8Size_of_isClosing hc, Nat.add_assoc]
    have hwidth : byteLength before + 1 + byteLength p.1 - byteLength before =
        byteLength p.1 + 1 := by omega
    have hzero := balance_of_splitAtClose hp
    refine (mem_levels_iff ho).2 ⟨by omega, by omega, ?_⟩
    have htake : (utf8 rest).take (byteLength p.1 + 1) = utf8 p.1 ++ [c.toUInt8] := by
      rw [hrest, utf8_append, utf8_cons_of_isBracket (.inr hc), ← length_utf8,
        List.take_length_add_append]
      rfl
    rw [hwidth, htake, balance_append, balance_closing hc, balance_nil]
    omega
  · intro j hj
    obtain ⟨hlt, -, hbalance⟩ := (mem_levels_iff ho).1 hj
    by_contra hless
    have hbefore : 0 ≤ ((0 : Nat) : Int) + balance ((utf8 rest).take (j - byteLength before)) := by
      refine balance_take_nonneg fun r hr => ?_
      obtain rfl := Option.some.inj (hp.symm.trans hr)
      omega
    omega

/-- Without a partner it never comes back. -/
theorem notMem_levels (hp : enclosed? rest = none) (j : Nat) :
    j ∉ levels (before ++ o :: rest) (byteLength before) := by
  intro hj
  have hbalance := ((mem_levels_iff ho).1 hj).2.2
  have hopen : 0 ≤ ((0 : Nat) : Int) + balance ((utf8 rest).take (j - byteLength before)) :=
    balance_take_nonneg fun r hr => absurd (hp.symm.trans hr) (by simp)
  omega

end

/-- **The partner is the least offset at which the brackets are level.** -/
theorem partner?_eq_some_iff {s : List Char} {i j : Nat} :
    partner? s i = some j ↔ OpensAt s i ∧ IsLeast (levels s i) j := by
  constructor
  · intro h
    obtain ⟨before, o, inside, c, after, hs, ho, -, hi, -⟩ := partner?_eq_some h
    rw [List.append_assoc, List.cons_append] at hs
    refine ⟨opensAt_iff.2 ⟨before, o, _, hs, ho, hi⟩, ?_⟩
    rw [hs, ← hi, partner?_append ho] at h
    obtain ⟨p, hp, rfl⟩ := Option.map_eq_some_iff.1 h
    rw [hs, ← hi]
    exact isLeast_levels ho hp
  · rintro ⟨hopens, hleast⟩
    obtain ⟨before, o, rest, rfl, ho, rfl⟩ := opensAt_iff.1 hopens
    rw [partner?_append ho]
    cases hp : enclosed? rest with
    | none => exact absurd hleast.1 (notMem_levels ho hp j)
    | some p => rw [Option.map_some, hleast.unique (isLeast_levels ho hp)]

/-! ## Proper nesting -/

/-- The kinds of brackets, each with its opening and its closing character. -/
def kinds : List (Char × Char) := [('<', '>'), ('(', ')'), ('[', ']'), ('{', '}')]

/-- A text is nested properly in some kinds of brackets: each bracket that opens is closed by one of
its kind behind a text that is nested properly itself, and no other bracket closes. -/
inductive Nested (kinds : List (Char × Char)) : List Char → Prop
  | nil : Nested kinds []
  | plain {c : Char} {s : List Char} (hc : ∀ k ∈ kinds, c ≠ k.1 ∧ c ≠ k.2)
    (hs : Nested kinds s) : Nested kinds (c :: s)
  | group {k : Char × Char} {inside rest : List Char} (hk : k ∈ kinds)
    (hinside : Nested kinds inside)
    (hrest : Nested kinds rest) : Nested kinds (k.1 :: (inside ++ k.2 :: rest))

/-- Characters that are no brackets may stand before what is nested properly. -/
theorem Nested.append_plain {kinds : List (Char × Char)} {s t : List Char}
    (hs : (s.all fun c => kinds.all fun k => c != k.1 && c != k.2) = true) (ht : Nested kinds t) :
    Nested kinds (s ++ t) := by
  induction s with
  | nil => exact ht
  | cons c s ih =>
    rw [List.all_cons, Bool.and_eq_true] at hs
    refine .plain (fun k hk => ?_) (ih hs.2)
    simpa using List.all_eq_true.1 hs.1 k hk

theorem isBracket_of_mem_kinds {k : Char × Char} (h : k ∈ kinds) :
    isOpening k.1 = true ∧ isClosing k.2 = true := by
  have hall : ∀ k ∈ kinds, isOpening k.1 = true ∧ isClosing k.2 = true := by decide
  exact hall k h

theorem isBracket_of_plain {c : Char} (h : ∀ k ∈ kinds, c ≠ k.1 ∧ c ≠ k.2) :
    isOpening c = false ∧ isClosing c = false := by
  simp only [kinds, List.forall_mem_cons, List.not_mem_nil, false_implies,
    implies_true, and_true] at h
  simp [isOpening, isClosing, h]

/-- Proper nesting is balanced in the count without kinds. -/
theorem Nested.isBalanced {s : List Char} (h : Nested kinds s) : IsBalanced s := by
  induction h with
  | nil => rfl
  | @plain c s hc _ ih =>
    obtain ⟨hopen, hclose⟩ := isBracket_of_plain hc
    rw [IsBalanced, depthThrough?, hopen, hclose, if_neg (by decide), if_neg (by decide),
      if_neg (by simp)]
    exact ih
  | @group k inside rest hk _ _ hinside hrest =>
    obtain ⟨hopen, hclose⟩ := isBracket_of_mem_kinds hk
    rw [IsBalanced, depthThrough?, if_pos hopen, depthThrough?_append,
      depthThrough?_succ hinside, Option.bind_some,
      depthThrough?, if_neg (by simp [isOpening_of_isClosing hclose]), if_pos hclose]
    exact hrest

/-- **In a properly nested text, an opening bracket begins a group**: what follows it is nested
properly up to a closing bracket of its kind. -/
theorem Nested.exists_group {s : List Char} (h : Nested kinds s) {before rest : List Char}
    {o : Char} (hs : s = before ++ o :: rest) (ho : isOpening o = true) :
    ∃ k ∈ kinds, ∃ inside after, o = k.1 ∧ rest = inside ++ k.2 :: after ∧ Nested kinds inside := by
  induction h generalizing before rest with
  | nil => simp at hs
  | @plain c s hc _ ih =>
    cases before with
    | nil =>
      obtain ⟨rfl, -⟩ := List.cons.inj hs
      exact absurd (ho.symm.trans (isBracket_of_plain hc).1) (by decide)
    | cons d before => exact ih (List.cons.inj hs).2
  | @group k inside tail hk hinside htail ihinside ihtail =>
    cases before with
    | nil =>
      obtain ⟨rfl, rfl⟩ := List.cons.inj hs
      exact ⟨k, hk, inside, tail, rfl, rfl, hinside⟩
    | cons d before =>
      -- it is not the one that closes the group, so it stands inside or behind
      have hne : k.2 ≠ o := by
        rintro rfl
        exact absurd (ho.symm.trans (isOpening_of_isClosing (isBracket_of_mem_kinds hk).2))
          (by decide)
      rcases List.append_eq_append_iff.1 (List.cons.inj hs).2 with ⟨m, -, hm⟩ | ⟨m, hin, hm⟩
      · cases m with
        | nil => exact absurd (List.cons.inj hm).1 hne
        | cons d' m => exact ihtail (List.cons.inj hm).2
      · cases m with
        | nil => exact absurd (List.cons.inj hm).1.symm hne
        | cons d' m =>
          obtain ⟨rfl, hrest⟩ := List.cons.inj hm
          obtain ⟨k', hk', inside', after, hok, hm', hinside'⟩ := ihinside hin
          exact ⟨k', hk', inside', after ++ k.2 :: tail, hok, by rw [hrest, hm']; simp, hinside'⟩

/-- A group of a text: from the bracket at byte offset `i` to the one of its kind at `j`, what
stands between them being nested properly. -/
def GroupAt (s : List Char) (i j : Nat) : Prop :=
  ∃ k ∈ kinds, ∃ before inside after, s = before ++ k.1 :: (inside ++ k.2 :: after) ∧
    Nested kinds inside ∧ byteLength before = i ∧ byteLength (before ++ k.1 :: inside) = j

theorem GroupAt.partner? {s : List Char} {i j : Nat} (h : GroupAt s i j) :
    partner? s i = some j := by
  obtain ⟨k, hk, before, inside, after, rfl, hinside, rfl, rfl⟩ := h
  obtain ⟨hopen, hclose⟩ := isBracket_of_mem_kinds hk
  have henclosed :=
    enclosed?_of_balanced hinside.isBalanced (isOpening_of_isClosing hclose) hclose after
  rw [partner?_append hopen, henclosed, Option.map_some, byteLength_append, byteLength_cons,
    utf8Size_of_isOpening hopen, Nat.add_assoc]

theorem Nested.exists_groupAt {s : List Char} (h : Nested kinds s) {i : Nat} (hi : OpensAt s i) :
    ∃ j, GroupAt s i j := by
  obtain ⟨before, o, rest, rfl, ho, rfl⟩ := opensAt_iff.1 hi
  obtain ⟨k, hk, inside, after, rfl, rfl, hinside⟩ := h.exists_group rfl ho
  exact ⟨_, k, hk, before, inside, after, rfl, hinside, rfl, rfl⟩

/-- **The partner that is found.** In any text and from any byte offset, one is found just if a
bracket opens there, and at the least offset behind it at which as many brackets have closed as
opened. There a closing bracket stands, as a character of the text. In a text that is nested
properly every opening bracket has one: the bracket of its kind that ends its group. -/
theorem partner?_closes_group (s : List Char) (i : Nat) :
    (∀ j, partner? s i = some j ↔ OpensAt s i ∧ IsLeast (levels s i) j) ∧
    (∀ j, partner? s i = some j →
      ∃ before c after, s = before ++ c :: after ∧ isClosing c = true ∧ byteLength before = j) ∧
    (Nested kinds s →
      (∀ j, partner? s i = some j ↔ GroupAt s i j) ∧
        (OpensAt s i → ∃ j, partner? s i = some j)) := by
  refine ⟨fun j => partner?_eq_some_iff, ?_, ?_⟩
  · intro j h
    obtain ⟨before, o, inside, c, after, hs, -, hc, -, hj⟩ := partner?_eq_some h
    exact ⟨before ++ o :: inside, c, after, hs, hc, hj⟩
  · intro hs
    refine ⟨fun j => ⟨fun h => ?_, GroupAt.partner?⟩, fun hi => ?_⟩
    · obtain ⟨j', hgroup⟩ := hs.exists_groupAt (partner?_eq_some_iff.1 h).1
      obtain rfl := Option.some.inj (h.symm.trans hgroup.partner?)
      exact hgroup
    · obtain ⟨j, hgroup⟩ := hs.exists_groupAt hi
      exact ⟨j, hgroup.partner?⟩

/-- A group in a group, behind a character of two bytes. -/
def groupText : List Char := "f<é, (a)>".toList

theorem partner?_closes_group_nested :
    Nested kinds groupText ∧ partner? groupText 1 = some 9 ∧ GroupAt groupText 1 9 ∧
      IsLeast (levels groupText 1) 9 := by
  have hinner : Nested kinds (['a'] ++ []) := .append_plain (by decide) .nil
  have houter : Nested kinds ("é, ".toList ++ '(' :: ('a' :: [')'])) :=
    .append_plain (by decide) (.group (k := ('(', ')')) (by decide) hinner .nil)
  have hnested : Nested kinds groupText :=
    .append_plain (s := ['f']) (by decide) (.group (k := ('<', '>')) (by decide) houter .nil)
  have hfound : partner? groupText 1 = some 9 := by decide
  obtain ⟨hleast, -, hgroup⟩ := partner?_closes_group groupText 1
  exact ⟨hnested, hfound, ((hgroup hnested).1 9).1 hfound, ((hleast 9).1 hfound).2⟩

/-- Where a text is not nested properly, brackets of different kinds are partners. -/
example : partner? "<a]".toList 0 = some 2 := by decide

end PseudoMove.Bracket
