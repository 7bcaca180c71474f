import PseudoMove.Fragment
import PseudoMove.Proofs.BracketPartner
import PseudoMove.Remark

/-!
# Labels with a type

A remark is read up to the first colon outside brackets that has no other colon beside it.  So a
label whose colons stand in pairs or in brackets (`IsLabel`) is read back from a remark, with its
type or without one (`labelAndType_written`); the type may be any text.

* `splitAtColon_of_paired` — a scan passes a text in which no colon that counts stands alone;
* `depth_of_eq_append` — in a properly nested text the depth is never negative, and
  zero only outside brackets.
-/

namespace PseudoMove.Remark

open Text Listing PseudoMove.Bracket

/-- The bracket depth at the end of a text. -/
def depth (s : List Char) : Int := (s.map depthChange).sum

/-- Whether a colon stands right before the end of a text; `afterColon` says it of the empty
text. -/
def endsInColon (afterColon : Bool) (s : List Char) : Bool :=
  s.foldl (fun _ c => c == ':') afterColon

@[simp] theorem depth_nil : depth [] = 0 := rfl

@[simp] theorem depth_cons (c : Char) (s : List Char) :
    depth (c :: s) = depthChange c + depth s := by
  simp [depth]

@[simp] theorem depth_append (s t : List Char) : depth (s ++ t) = depth s + depth t := by
  simp [depth]

theorem endsInColon_eq {s : List Char} (hs : s ≠ []) (afterColon : Bool) :
    endsInColon afterColon s = decide (s.getLast? = some ':') := by
  obtain ⟨s, c, rfl⟩ := (List.eq_nil_or_concat' s).resolve_left hs
  rw [endsInColon, List.foldl_concat, List.getLast?_concat, beq_eq_decide]
  simp only [Option.some.injEq]

/-! ## Passing a label -/

/-- **A scan passes a text in which no colon that counts stands alone.** A colon counts at depth
zero, and `t` is what follows the text. -/
theorem splitAtColon_of_paired {s t : List Char} {afterColon : Bool} {d : Int}
    (h : ∀ p q, s = p ++ ':' :: q → d + depth p = 0 → endsInColon afterColon p = true ∨
      (q ++ t).head? = some ':') :
    splitAtColon afterColon d (s ++ t) =
      (splitAtColon (endsInColon afterColon s) (d + depth s) t).map fun r => (s ++ r.1, r.2) := by
  induction s generalizing afterColon d with
  | nil =>
    rw [depth_nil, Int.add_zero]
    simp [endsInColon]
  | cons c s ih =>
    have hrest : ∀ p q, s = p ++ ':' :: q → d + depthChange c + depth p = 0 →
        endsInColon (c == ':') p = true ∨ (q ++ t).head? = some ':' := by
      intro p q hs hd
      refine h (c :: p) q (by rw [hs, List.cons_append]) ?_
      rw [depth_cons]
      omega
    have hstep := ih hrest
    rw [List.cons_append, splitAtColon, depth_cons, ← Int.add_assoc]
    by_cases hc : c = ':'
    · subst hc
      have hnot : ¬(d = 0 ∧ afterColon = false ∧ (s ++ t).head? ≠ some ':') := by
        rintro ⟨rfl, rfl, hhead⟩
        rcases h [] s rfl rfl with hbefore | hbehind
        · exact absurd hbefore (by decide)
        · exact hhead hbehind
      have hchange : depthChange ':' = 0 := by decide
      rw [hchange, Int.add_zero] at hstep ⊢
      rw [if_pos rfl, if_neg hnot, show splitAtColon true d (s ++ t) = _ from hstep, Option.map_map]
      rfl
    · have hbeq : (c == ':') = false := by simpa using hc
      rw [hbeq] at hstep
      rw [if_neg hc, hstep, Option.map_map]
      unfold endsInColon
      rw [List.foldl_cons, hbeq]
      rfl

/-! ## Labels -/

/-- The kinds of brackets that count in a remark. -/
def labelKinds : List (Char × Char) := [('<', '>'), ('(', ')'), ('[', ']')]

/-- What a remark can have before its type: a text without blanks at its ends, nested properly in
the brackets that count, in which every colon outside brackets has another colon beside it, and
which does not end in one. -/
structure IsLabel (label : List Char) : Prop where
  trimmed : IsTrimmed label
  nested : Nested labelKinds label
  paired : ∀ p q, label = p ++ ':' :: q → Nested labelKinds p → p.getLast? = some ':' ∨
    q.head? = some ':'
  last : label.getLast? ≠ some ':'

theorem depthChange_of_mem_labelKinds {k : Char × Char} (h : k ∈ labelKinds) :
    depthChange k.1 = 1 ∧ depthChange k.2 = -1 := by
  have hall : ∀ k ∈ labelKinds, depthChange k.1 = 1 ∧ depthChange k.2 = -1 := by decide
  exact hall k h

theorem depthChange_of_plain {c : Char} (h : ∀ k ∈ labelKinds, c ≠ k.1 ∧ c ≠ k.2) :
    depthChange c = 0 := by
  simp only [labelKinds, List.forall_mem_cons, List.not_mem_nil, false_implies,
    implies_true, and_true] at h
  simp [depthChange, h]

theorem depth_of_nested {s : List Char} (h : Nested labelKinds s) : depth s = 0 := by
  induction h with
  | nil => rfl
  | plain hc _ ih => rw [depth_cons, depthChange_of_plain hc, ih, Int.add_zero]
  | group hk _ _ hinside hrest =>
    obtain ⟨hopen, hclose⟩ := depthChange_of_mem_labelKinds hk
    rw [depth_cons, depth_append, depth_cons, hopen, hclose, hinside, hrest]
    rfl

/-- **The depth is never negative, and zero only outside brackets**, where what stands before
is nested properly too. -/
theorem depth_of_eq_append {s : List Char} (h : Nested labelKinds s) {p q : List Char}
    (hs : s = p ++ q) :
    0 ≤ depth p ∧ (depth p = 0 → Nested labelKinds p) := by
  induction h generalizing p q with
  | nil =>
    obtain ⟨rfl, -⟩ := List.append_eq_nil_iff.1 hs.symm
    exact ⟨le_rfl, fun _ => .nil⟩
  | plain hc _ ih =>
    cases p with
    | nil => exact ⟨le_rfl, fun _ => .nil⟩
    | cons d p =>
      obtain ⟨rfl, htail⟩ := List.cons.inj hs
      obtain ⟨hnonneg, hzero⟩ := ih htail
      rw [depth_cons, depthChange_of_plain hc, Int.zero_add]
      exact ⟨hnonneg, fun h => .plain hc (hzero h)⟩
  | @group k inside rest hk hinside _ ihinside ihrest =>
    cases p with
    | nil => exact ⟨le_rfl, fun _ => .nil⟩
    | cons d p =>
      obtain ⟨rfl, htail⟩ := List.cons.inj hs
      obtain ⟨hopen, hclose⟩ := depthChange_of_mem_labelKinds hk
      rw [depth_cons, hopen]
      rcases List.append_eq_append_iff.1 htail with ⟨m, rfl, hm⟩ | ⟨m, hm, -⟩
      · rw [depth_append, depth_of_nested hinside]
        cases m with
        | nil =>
          rw [depth_nil]
          exact ⟨by omega, fun h => absurd h (by decide)⟩
        | cons e m =>
          -- the group is closed before the prefix ends
          obtain ⟨rfl, hbehind⟩ := List.cons.inj hm
          obtain ⟨hnonneg, hzero⟩ := ihrest hbehind
          rw [depth_cons, hclose]
          exact ⟨by omega, fun h => .group hk hinside (hzero (by omega))⟩
      · have hnonneg := (ihinside hm).1
        exact ⟨by omega, fun h => by omega⟩

theorem depth_le_length (s : List Char) : depth s ≤ s.length := by
  induction s with
  | nil => exact le_rfl
  | cons c s ih =>
    have hchange : depthChange c ≤ 1 := by
      unfold depthChange
      split
      · exact le_rfl
      · split <;> decide
    rw [depth_cons, List.length_cons]
    omega

/-- A label is passed, whatever follows. -/
theorem IsLabel.splitAtColon_append {label : List Char} (h : IsLabel label) (t : List Char) :
    splitAtColon false 0 (label ++ t) =
      (splitAtColon false 0 t).map fun r => (label ++ r.1, r.2) := by
  have hpaired : ∀ p q, label = p ++ ':' :: q → 0 + depth p = 0 →
      endsInColon false p = true ∨ (q ++ t).head? = some ':' := by
    intro p q hlabel hdepth
    have houtside := (depth_of_eq_append h.nested hlabel).2 (by omega)
    rcases h.paired p q hlabel houtside with hbefore | hbehind
    · have hne : p ≠ [] := by
        rintro rfl
        simp at hbefore
      exact .inl ((endsInColon_eq hne false).trans (decide_eq_true hbefore))
    · refine .inr ?_
      rw [List.head?_append, hbehind, Option.some_or]
  have hend : endsInColon false label = false :=
    (endsInColon_eq h.trimmed.1 false).trans (decide_eq_false h.last)
  rw [splitAtColon_of_paired hpaired, hend, depth_of_nested h.nested, Int.add_zero]

/-- **A label is read back, with its type and without.** Behind the label, a colon and a space any
text is the type, with the colons and brackets it has; and the depth that is counted in the label
never leaves 32 bits, one of them for its sign. -/
theorem labelAndType_written {label ty : List Char} (h : IsLabel label)
    (hsize : byteLength label < Fragment.depthLimit) (hty : trim ty = ty) :
    labelAndType (label ++ ':' :: ' ' :: ty) = (label, some ty) ∧
      labelAndType label = (label, none) ∧
      ∀ p, p <+: label → 0 ≤ depth p ∧ depth p < Fragment.depthLimit := by
  refine ⟨?_, ?_, ?_⟩
  · have hcolon : splitAtColon false 0 (':' :: ' ' :: ty) = some ([], ' ' :: ty) := by
      rw [splitAtColon, if_pos rfl, if_pos ⟨rfl, rfl, by simp⟩]
    have hspace : trim (' ' :: ty) = trim ty := trim_blanks (b := [' ']) (by decide) ty
    rw [labelAndType, h.splitAtColon_append, hcolon]
    simp only [Option.map_some, List.append_nil]
    rw [h.trimmed.2, hspace, hty]
  · have hscan := h.splitAtColon_append []
    rw [List.append_nil] at hscan
    rw [labelAndType, hscan, splitAtColon]
    simp only [Option.map_none]
    rw [h.trimmed.2]
  · rintro p ⟨q, rfl⟩
    refine ⟨(depth_of_eq_append h.nested rfl).1, ?_⟩
    have hlength := depth_le_length p
    have hbytes := length_le_byteLength p
    rw [byteLength_append] at hsize
    omega

/-- A label with paths, and with a colon that stands alone in brackets. -/
def reserveLabel : List Char := "0x2::dex::Pool<a: b, (X::Y)>.reserve".toList

/-- A type with a colon outside brackets, and with a bracket that nothing closes. -/
def strayType : List Char := "u64, k: [v".toList

theorem isLabel_reserve : IsLabel reserveLabel where
  trimmed := by decide
  nested := by
    have hpath : Nested labelKinds ("X::Y".toList ++ []) := .append_plain (by decide) .nil
    have hinside : Nested labelKinds ("a: b, ".toList ++ '(' :: ("X::Y".toList ++ [] ++ [')'])) :=
      .append_plain (by decide) (.group (k := ('(', ')')) (by decide) hpath .nil)
    have hfield : Nested labelKinds (".reserve".toList ++ []) := .append_plain (by decide) .nil
    exact .append_plain (s := "0x2::dex::Pool".toList) (by decide)
      (.group (k := ('<', '>')) (by decide) hinside hfield)
  paired := by
    intro p q hlabel hp
    have hall : ∀ n < reserveLabel.length, depth (reserveLabel.take n) = 0 →
        reserveLabel[n]? = some ':' → (reserveLabel.take n).getLast? = some ':' ∨
        (reserveLabel.drop (n + 1)).head? = some ':' := by decide +kernel
    have := hall p.length (by rw [hlabel]; simp)
      (by rw [hlabel, List.take_left]; exact depth_of_nested hp) (by rw [hlabel]; simp)
    rw [hlabel, List.take_left] at this
    simpa using this
  last := by decide

theorem labelAndType_written_reserve :
    IsLabel reserveLabel ∧ byteLength reserveLabel < Fragment.depthLimit ∧
      trim strayType = strayType ∧
      labelAndType (reserveLabel ++ ':' :: ' ' :: strayType) = (reserveLabel, some strayType) ∧
      labelAndType reserveLabel = (reserveLabel, none) := by
  have hsize : byteLength reserveLabel < Fragment.depthLimit := by decide +kernel
  have hty : trim strayType = strayType := by decide
  obtain ⟨htyped, huntyped, -⟩ := labelAndType_written isLabel_reserve hsize hty
  exact ⟨isLabel_reserve, hsize, hty, htyped, huntyped⟩

end PseudoMove.Remark
