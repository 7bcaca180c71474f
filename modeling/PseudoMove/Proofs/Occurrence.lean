import PseudoMove.Fragment
import PseudoMove.Identifier
import Mathlib

/-!
# How often a word occurs

`timesIn w s` counts the places at which the word `w` occurs in the text `s`, as a part of other
words too.  A place cannot lie across a character that is in no word, so that the count adds up
where texts are put together at such a character (`timesIn_append`), and over the parts of a list
with separators (`timesIn_intercalate`).  The rules by which a fragment is written inside a
larger one add marks only, and take none but a borrow away: they keep the count
(`timesIn_unborrowed` and what follows it).
-/

namespace PseudoMove

open Text Identifier Fragment

/-- The number of places at which `w` occurs in a text. -/
def occurrences (w : List Char) : List Char → Nat
  | [] => 0
  | c :: s => (if w <+: c :: s then 1 else 0) + occurrences w s

/-- How often a word occurs in a text. -/
def timesIn (w s : String) : Nat := occurrences w.toList s.toList

/-- How often a word occurs in some texts together. -/
def timesInAll (w : String) (texts : List String) : Nat := (texts.map (timesIn w)).sum

theorem timesInAll_eq_zero {w : String} {texts : List String} (h : ∀ s ∈ texts, timesIn w s = 0) :
    timesInAll w texts = 0 := by
  refine List.sum_eq_zero_iff_forall_eq_nat.2 fun n hn => ?_
  obtain ⟨s, hs, rfl⟩ := List.mem_map.1 hn
  exact h s hs

theorem timesInAll_append (w : String) (ss ts : List String) :
    timesInAll w (ss ++ ts) = timesInAll w ss + timesInAll w ts := by
  rw [timesInAll, List.map_append, List.sum_append_nat]
  rfl

theorem timesInAll_reverse (w : String) (ss : List String) :
    timesInAll w ss.reverse = timesInAll w ss := by
  rw [timesInAll, List.map_reverse, List.sum_reverse]
  rfl

/-- A word: some letters, numbers and underscores. -/
structure IsWord (w : String) : Prop where
  ne_empty : w ≠ ""
  chars : w.toList.all isPart = true

instance (w : String) : Decidable (IsWord w) :=
  decidable_of_iff (w ≠ "" ∧ w.toList.all isPart = true) ⟨fun h => ⟨h.1, h.2⟩, fun h => ⟨h.1, h.2⟩⟩

/-! ## Counting in lists of characters -/

section List

variable {w a b s : List Char} {c : Char}

/-- A beginning of a text that does not have the character `c` in it ends before the first `c`. -/
theorem prefix_of_prefix_append_cons (hc : c ∉ w) (h : w <+: a ++ c :: b) : w <+: a := by
  induction w generalizing a with
  | nil => exact List.nil_prefix
  | cons d w ih =>
    rw [List.mem_cons, not_or] at hc
    cases a with
    | nil =>
      rw [List.nil_append, List.cons_prefix_cons] at h
      exact absurd h.1.symm hc.1
    | cons e a =>
      rw [List.cons_append, List.cons_prefix_cons] at h
      exact List.cons_prefix_cons.2 ⟨h.1, ih hc.2 h.2⟩

theorem occurrences_append_cons (hw : w ≠ []) (hc : c ∉ w) :
    occurrences w (a ++ c :: b) = occurrences w a + occurrences w b := by
  induction a with
  | nil =>
    have hno : ¬ w <+: c :: b := by
      intro h
      have := prefix_of_prefix_append_cons (a := []) hc h
      exact hw (List.prefix_nil.1 this)
    show (if w <+: c :: b then 1 else 0) + occurrences w b = 0 + occurrences w b
    rw [if_neg hno]
  | cons d a ih =>
    have hiff : w <+: d :: (a ++ c :: b) ↔ w <+: d :: a := by
      refine ⟨fun h => prefix_of_prefix_append_cons hc h, fun h => ?_⟩
      exact h.trans (List.prefix_append (d :: a) (c :: b))
    rw [List.cons_append, occurrences, occurrences, ih]
    simp only [hiff]
    omega

theorem occurrences_eq_zero_iff (hw : w ≠ []) : occurrences w s = 0 ↔ ¬ w <:+: s := by
  induction s with
  | nil => simpa [occurrences] using hw
  | cons c s ih =>
    rw [occurrences, List.infix_cons_iff, Nat.add_eq_zero_iff, ih, not_or]
    by_cases h : w <+: c :: s <;> simp [h]

theorem occurrences_self (hw : w ≠ []) : occurrences w w = 1 := by
  cases w with
  | nil => exact absurd rfl hw
  | cons c w =>
    have h : occurrences (c :: w) w = 0 := by
      rw [occurrences_eq_zero_iff hw]
      intro h
      have := h.length_le
      rw [List.length_cons] at this
      omega
    rw [occurrences, if_pos List.prefix_rfl, h]

end List

/-! ## Counting in texts -/

/-- The text begins with a character that is in no word. -/
def opens (s : String) : Bool := s.toList.head?.any fun c => !isPart c

/-- The text ends with a character that is in no word. -/
def closes (s : String) : Bool := s.toList.getLast?.any fun c => !isPart c

theorem closes_append (a : String) {b : String} (h : closes b = true) : closes (a ++ b) = true := by
  unfold closes at *
  rw [String.toList_append, List.getLast?_append]
  cases hb : b.toList.getLast? with
  | none =>
    rw [hb] at h
    exact absurd h (by decide)
  | some c =>
    rw [hb] at h
    exact h

theorem eq_append_of_toList {p f : String} {r : List Char} (h : f.toList = p.toList ++ r) :
    f = p ++ String.ofList r := by
  rw [← String.toList_inj, String.toList_append, String.toList_ofList, h]

namespace IsWord

variable {w : String} (hw : IsWord w)
include hw

theorem toList_ne_nil : w.toList ≠ [] := fun e => hw.ne_empty (String.toList_eq_nil_iff.1 e)

theorem notMem {c : Char} (hc : isPart c = false) : c ∉ w.toList := by
  intro h
  rw [List.all_eq_true.1 hw.chars c h] at hc
  exact absurd hc (by decide)

theorem timesIn_eq_zero_iff {s : String} : timesIn w s = 0 ↔ ¬ w.toList <:+: s.toList :=
  occurrences_eq_zero_iff hw.toList_ne_nil

theorem timesIn_self : timesIn w w = 1 := occurrences_self hw.toList_ne_nil

/-- **Counts add up** where two texts meet at a character that is in no word. -/
theorem timesIn_append {a b : String} (h : closes a = true ∨ opens b = true) :
    timesIn w (a ++ b) = timesIn w a + timesIn w b := by
  unfold timesIn
  rw [String.toList_append]
  rcases h with h | h
  · obtain ⟨c, hc, hpart⟩ := (Option.any_eq_true _ _).1 h
    obtain ⟨a', ha⟩ := List.getLast?_eq_some_iff.1 hc
    have hc := hw.notMem (by simpa using hpart)
    rw [ha, List.append_assoc, List.singleton_append,
      occurrences_append_cons hw.toList_ne_nil hc, occurrences_append_cons hw.toList_ne_nil hc]
    rfl
  · obtain ⟨c, hc, hpart⟩ := (Option.any_eq_true _ _).1 h
    obtain ⟨b', hb⟩ := List.head?_eq_some_iff.1 hc
    have hc := hw.notMem (by simpa using hpart)
    have h0 := occurrences_append_cons (a := []) (b := b') hw.toList_ne_nil hc
    rw [List.nil_append] at h0
    rw [hb, occurrences_append_cons hw.toList_ne_nil hc, h0]
    exact congrArg _ (Nat.zero_add _).symm

/-- A part of a text in which the word does not occur. -/
theorem timesIn_of_infix {a s : String} (h : a.toList <:+: s.toList) (hs : timesIn w s = 0) :
    timesIn w a = 0 := by
  rw [hw.timesIn_eq_zero_iff] at hs ⊢
  exact fun h' => hs (h'.trans h)

/-- A text without letters, numbers and underscores. -/
theorem timesIn_of_all {s : String} (hs : s.toList.all (fun c => !isPart c) = true) :
    timesIn w s = 0 := by
  rw [hw.timesIn_eq_zero_iff]
  intro h
  obtain ⟨c, hc⟩ := List.exists_mem_of_ne_nil _ hw.toList_ne_nil
  have hno := List.all_eq_true.1 hs c (h.subset hc)
  rw [List.all_eq_true.1 hw.chars c hc] at hno
  exact absurd hno (by decide)

theorem timesIn_intercalate {sep : String} (ho : opens sep = true) (hc : closes sep = true)
    (h0 : timesIn w sep = 0) (fs : List String) :
    timesIn w (sep.intercalate fs) = timesInAll w fs := by
  unfold timesInAll
  induction fs with
  | nil => exact hw.timesIn_of_all (by simp)
  | cons f fs ih =>
    cases fs with
    | nil => simp
    | cons g fs =>
      rw [String.intercalate_cons_cons, hw.timesIn_append (.inl (closes_append f hc)),
        hw.timesIn_append (.inr ho), h0, ih, List.map_cons, List.sum_cons]
      rfl

theorem timesIn_commaList (fs : List String) : timesIn w (commaList fs) = timesInAll w fs :=
  hw.timesIn_intercalate (by decide) (by decide) (hw.timesIn_of_all (by decide)) fs

/-! ### Fragments inside fragments -/

theorem timesIn_unborrowed (hmut : timesIn w "&mut " = 0) (f : String) :
    timesIn w (unborrowed f) = timesIn w f := by
  unfold unborrowed
  split
  · next r h =>
    have e := eq_append_of_toList (afterPrefix?_eq_some_iff.1 h)
    rw [e, hw.timesIn_append (.inl (by decide)), hmut, Nat.zero_add]
  · split
    · next r h =>
      have e := eq_append_of_toList (p := "&") (h.trans rfl)
      have h0 : timesIn w "&" = 0 := hw.timesIn_of_all (by decide)
      rw [e, hw.timesIn_append (.inl (by decide)), h0, Nat.zero_add]
    · rfl

theorem timesIn_dereferenced (hmut : timesIn w "&mut " = 0) (f : String) :
    timesIn w (dereferenced f) = timesIn w f := by
  unfold dereferenced
  split
  · exact hw.timesIn_unborrowed hmut f
  · have h0 : timesIn w "*" = 0 := hw.timesIn_of_all (by decide)
    rw [hw.timesIn_append (.inl (by decide)), h0, Nat.zero_add]

theorem timesIn_freeze (hmut : timesIn w "&mut " = 0) (f : String) :
    timesIn w (freeze f) = timesIn w f := by
  unfold freeze
  split
  · next r h =>
    have e := eq_append_of_toList (afterPrefix?_eq_some_iff.1 h)
    have h0 : timesIn w "&" = 0 := hw.timesIn_of_all (by decide)
    rw [e, hw.timesIn_append (.inl (by decide)), hw.timesIn_append (.inl (by decide)), hmut, h0]
  · rfl

theorem timesIn_inParentheses (f : String) : timesIn w (inParentheses f) = timesIn w f := by
  unfold inParentheses
  split
  · rfl
  · have h0 : timesIn w "(" = 0 := hw.timesIn_of_all (by decide)
    have h1 : timesIn w ")" = 0 := hw.timesIn_of_all (by decide)
    rw [hw.timesIn_append (.inr (by decide)), hw.timesIn_append (.inl (by decide)), h0, h1]
    omega

theorem timesIn_negated (f : String) : timesIn w (negated f) = timesIn w f := by
  have h0 : timesIn w "!" = 0 := hw.timesIn_of_all (by decide)
  unfold negated
  rw [hw.timesIn_append (.inl (by decide)), h0, Nat.zero_add]
  split
  · rfl
  · exact hw.timesIn_inParentheses f

end IsWord

end PseudoMove
