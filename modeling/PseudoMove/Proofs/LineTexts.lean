import PseudoMove.Proofs.RemarkTexts
import PseudoMove.Listing.Line
import PseudoMove.Machine

/-!
# Parts of a line

An instruction keeps its operand and its remark, and a declaration its type, as characters that
stand together in their line (`isInfix_of_instruction?`, `isInfix_of_slotDecl?`).  The instructions
and the declarations of a body each come from one of its lines (`exists_of_mem_instructions`,
`exists_of_mem_locals`), so what is said of every line can be said of every operand, remark and
type, and of what the machine reads off them.
-/

namespace PseudoMove

open Text

/-- The texts that an instruction keeps of its line. -/
def Instruction.texts (r : Instruction) : List String := r.remark.toList ++ r.operand.toList

/-- The texts of a header. -/
def FunctionHeader.texts (h : FunctionHeader) : List String :=
  h.name :: h.returnType :: h.typeParameters ++ h.parameters.flatMap fun p => [p.name, p.paramType]

theorem beforeSuffix?_eq_some_iff {pat s r : List Char} :
    beforeSuffix? pat s = some r ↔ s = r ++ pat := by
  unfold beforeSuffix?
  rw [Option.map_eq_some_iff]
  constructor
  · rintro ⟨t, ht, rfl⟩
    rw [afterPrefix?_eq_some_iff] at ht
    rw [← List.reverse_reverse s, ht, List.reverse_append, List.reverse_reverse]
  · rintro rfl
    exact ⟨r.reverse, by rw [afterPrefix?_eq_some_iff, List.reverse_append], List.reverse_reverse r⟩

namespace Listing

variable {s : List Char}

/-! ## Scanners -/

theorem isSuffix_trimStart (s : List Char) : trimStart s <:+ s := List.dropWhile_suffix _

theorem isSuffix_of_decimals? {r : List Char × List Char} (h : decimals? s = some r) :
    r.2 <:+ s := by
  unfold decimals? at h
  split at h
  · simp at h
  · obtain rfl := Option.some.inj h
    exact List.dropWhile_suffix _

theorem isSuffix_of_name? {r : List Char × List Char} (h : name? s = some r) : r.2 <:+ s := by
  unfold name? at h
  split at h
  · simp at h
  · split at h
    · obtain rfl := Option.some.inj h
      exact List.dropWhile_suffix _
    · simp at h

theorem isSuffix_of_mark? {c : Char} {r : List Char} (h : mark? c s = some r) : r <:+ s := by
  unfold mark? at h
  split at h
  · next d q hq =>
    split at h
    · obtain rfl := Option.some.inj h
      exact ((List.suffix_cons d q).trans (hq ▸ List.suffix_rfl)).trans (isSuffix_trimStart s)
    · simp at h
  · simp at h

theorem isSuffix_of_keyword? {word r : List Char} (h : keyword? word s = some r) : r <:+ s := by
  unfold keyword? at h
  split at h
  · next c q hq =>
    rw [Option.ite_none_right_eq_some] at h
    rw [← Option.some.inj h.2]
    exact (isSuffix_trimStart q).trans ((List.suffix_cons c q).trans (isSuffix_of_afterPrefix? hq))
  · simp at h

/-- Also where nothing but blanks is left, and one of them is the value. -/
theorem isInfix_of_closedValue? {c : Char} {v : List Char} (h : closedValue? c s = some v) :
    v <:+: s := by
  unfold closedValue? at h
  split at h
  · obtain ⟨d, hd, rfl⟩ := Option.map_eq_some_iff.1 h
    have hmem : d ∈ s := (List.mem_filter.1 (List.mem_of_getLast? hd)).1
    obtain ⟨a, b, rfl⟩ := List.append_of_mem hmem
    exact ⟨a, b, by simp⟩
  · have hinner : ∀ t : List Char,
        (if t.getLast? = some c then trimEnd t.dropLast else t) <:+: t := by
      intro t
      split
      · exact (isPrefix_dropEndWhile _ _).isInfix.trans (List.dropLast_prefix t).isInfix
      · exact List.infix_rfl
    rw [Option.ite_none_right_eq_some] at h
    obtain ⟨-, h⟩ := h
    obtain rfl := Option.some.inj h
    refine List.IsInfix.trans ?_ (isInfix_trim s)
    generalize trim s = t
    by_cases ht : (if t.getLast? = some c then trimEnd t.dropLast else t) = []
    · rewrite [if_pos ht]
      exact List.infix_rfl
    · rw [if_neg ht]
      exact hinner t

/-! ## The parts of an instruction -/

theorem parts_of_operand? {r : Option (List Char) × List Char} (h : operand? s = some r) :
    (∀ o ∈ r.1, o <:+: s) ∧ r.2 <:+ s := by
  unfold operand? at h
  split at h
  · next q =>
    have hq : q <:+ '[' :: q := List.suffix_cons _ _
    split at h
    · next d rest hrest =>
      obtain rfl := Option.some.inj h
      refine ⟨fun o ho => ?_, ?_⟩
      · obtain rfl := Option.some.inj ho
        exact (isInfix_trim _).trans ((List.takeWhile_prefix _).isInfix.trans hq.isInfix)
      · have : d :: rest <:+ q := hrest ▸ List.dropWhile_suffix _
        exact ((List.suffix_cons d rest).trans this).trans hq
    · simp at h
  · obtain rfl := Option.some.inj h
    exact ⟨by simp, List.suffix_rfl⟩

theorem isInfix_of_remark? {t : List Char} (h : remark? s = some (some t)) : t <:+: s := by
  unfold remark? at h
  split at h
  · next r =>
    split at h
    · next q hq =>
      rw [beforeSuffix?_eq_some_iff] at hq
      rw [Option.ite_none_right_eq_some] at h
      obtain ⟨-, h⟩ := h
      obtain rfl := Option.some.inj (Option.some.inj h)
      have hqr : q <:+: r := by
        have : q <+: trimEnd r := hq ▸ List.prefix_append _ _
        exact (this.trans (isPrefix_dropEndWhile _ _)).isInfix
      exact (isInfix_trim q).trans (hqr.trans (List.suffix_cons _ _).isInfix)
    · simp at h
  · simp at h
  · split at h
    · split at h
      · simp at h
      · rw [Option.ite_none_right_eq_some] at h
        obtain ⟨-, h⟩ := h
        obtain rfl := Option.some.inj (Option.some.inj h)
        exact isInfix_trim _
    · simp at h

/-- What an instruction keeps of its line stands behind the colon after its offset. -/
theorem exists_of_instruction? {line : List Char} {r : Instruction}
    (h : instruction? line = some r) :
    ∃ s, ':' :: s <:+ line ∧ ∀ t ∈ r.texts, t.toList <:+: s := by
  simp only [instruction?, bind, Option.bind_eq_some_iff] at h
  obtain ⟨ds, hds, s₁, h₁, m, hm, o, ho, rem, hrem, n, -, h⟩ := h
  obtain rfl := Option.some.inj h
  have hcolon : ':' :: s₁ <:+ line := by
    have e : ds.2 = ':' :: s₁ := afterPrefix?_eq_some_iff.1 h₁
    rw [← e]
    exact (isSuffix_of_decimals? hds).trans (isSuffix_trimStart line)
  have hs₂ : m.2 <:+ s₁ := (isSuffix_of_name? hm).trans (isSuffix_trimStart s₁)
  obtain ⟨hop, hrest⟩ := parts_of_operand? ho
  refine ⟨s₁, hcolon, fun t ht => ?_⟩
  rw [Instruction.texts, List.mem_append, Option.mem_toList, Option.mem_toList] at ht
  rcases ht with ht | ht
  · obtain ⟨a, ha, rfl⟩ := Option.map_eq_some_iff.1 ht
    rw [String.toList_ofList]
    exact (isInfix_of_remark? (ha ▸ hrem)).trans (hrest.trans hs₂).isInfix
  · obtain ⟨a, ha, rfl⟩ := Option.map_eq_some_iff.1 ht
    rw [String.toList_ofList]
    exact (hop a ha).trans hs₂.isInfix

/-- What an instruction keeps of its line is part of it. -/
theorem isInfix_of_instruction? {line : List Char} {r : Instruction}
    (h : instruction? line = some r) :
    ∀ t ∈ r.texts, t.toList <:+: line := by
  obtain ⟨s, hs, hparts⟩ := exists_of_instruction? h
  exact fun t ht => (hparts t ht).trans ((List.suffix_cons ':' s).trans hs).isInfix

/-- The type that a declaration gives is part of its line. -/
theorem isInfix_of_slotDecl? {line : List Char} {d : SlotDecl} (h : slotDecl? line = some d) :
    d.slotType.toList <:+: line := by
  unfold slotDecl? at h
  split at h
  · next s hs =>
    simp only [bind, Option.bind_eq_some_iff] at h
    obtain ⟨ds, hds, s₁, h₁, n, hn, s₂, h₂, ty, hty, slot, -, h⟩ := h
    obtain rfl := Option.some.inj h
    have hs₁ : s₁ <:+ s := (isSuffix_of_afterPrefix? h₁).trans (isSuffix_of_decimals? hds)
    have hs₂ : s₂ <:+ s :=
      (((isSuffix_of_mark? h₂).trans (isSuffix_of_name? hn)).trans (isSuffix_trimStart s₁)).trans
        hs₁
    have hline : s <:+ line :=
      ((List.suffix_cons 'L' s).trans (hs ▸ List.suffix_rfl)).trans (isSuffix_trimStart line)
    rw [String.toList_ofList]
    exact (isInfix_of_closedValue? hty).trans (hs₂.trans hline).isInfix
  · simp at h

/-! ## The lines of a body -/

theorem instruction?_of_bodyLine {line : List Char} {r : Instruction}
    (h : bodyLine line = .instruction r) :
    instruction? line = some r := by
  unfold bodyLine at h
  split at h
  · simp at h
  · split at h
    · simp at h
    · split at h
      · next hr =>
        obtain rfl := BodyLine.instruction.inj h
        exact hr
      · simp at h

theorem slotDecl?_of_bodyLine {line : List Char} {d : SlotDecl}
    (h : bodyLine line = .declaration d) :
    slotDecl? line = some d := by
  unfold bodyLine at h
  split at h
  · simp at h
  · split at h
    · next hd =>
      obtain rfl := BodyLine.declaration.inj h
      exact hd
    · split at h <;> simp at h

theorem exists_of_mem_instructions {ls : List String} {r : Instruction}
    (h : r ∈ (body ls).instructions) :
    ∃ l ∈ ls, instruction? l.toList = some r := by
  obtain ⟨b, hb, h⟩ := List.mem_filterMap.1 h
  obtain ⟨l, hl, rfl⟩ := List.mem_map.1 hb
  refine ⟨l, hl, instruction?_of_bodyLine ?_⟩
  split at h
  · next e => rw [e, Option.some.inj h]
  · simp at h

theorem exists_of_mem_locals {ls : List String} {d : SlotDecl} (h : d ∈ (body ls).locals) :
    ∃ l ∈ ls, slotDecl? l.toList = some d := by
  obtain ⟨b, hb, h⟩ := List.mem_filterMap.1 h
  obtain ⟨l, hl, rfl⟩ := List.mem_map.1 hb
  refine ⟨l, hl, slotDecl?_of_bodyLine ?_⟩
  split at h
  · next e => rw [e, Option.some.inj h]
  · simp at h

end Listing

/-! ## What the machine reads off an instruction -/

namespace Machine

open Remark

variable {r : Instruction} {s : String}

theorem mem_texts_of_remark (h : r.remark = some s) : s ∈ r.texts := by simp [Instruction.texts, h]

/-- A text read off the remark by a function that gives parts of it. -/
theorem isInfix_of_read {read : List Char → Option (List Char)}
    (hread : ∀ {a n : List Char}, read a = some n → n <:+: a)
    (h : (r.remark.bind fun a => read a.toList).map String.ofList = some s) :
    ∃ t ∈ r.texts, s.toList <:+: t.toList := by
  obtain ⟨n, hn, rfl⟩ := Option.map_eq_some_iff.1 h
  obtain ⟨a, ha, hn⟩ := Option.bind_eq_some_iff.1 hn
  exact ⟨a, mem_texts_of_remark ha, by rw [String.toList_ofList]; exact hread hn⟩

theorem isInfix_of_structOf? (h : structOf? r = some s) : ∃ t ∈ r.texts, s.toList <:+: t.toList :=
  isInfix_of_read isInfix_of_structName? h

theorem isInfix_of_fieldOf? (h : fieldOf? r = some s) : ∃ t ∈ r.texts, s.toList <:+: t.toList :=
  isInfix_of_read isInfix_of_fieldName? h

/-- A constant is part of the instruction, or named after its number in the pool. -/
theorem isInfix_of_constant? (h : constant? r = some s) :
    (∃ t ∈ r.texts, s.toList <:+: t.toList) ∨ ∃ i, r.operandIndex = some i ∧
      s = "CONST_" ++ toString i := by
  unfold constant? at h
  dsimp only at h
  split at h
  · next v hv =>
    obtain ⟨hv, -⟩ := Option.filter_eq_some_iff.1 hv
    exact Or.inl
      (isInfix_of_read isInfix_of_type ((congrArg (Option.map String.ofList) hv).trans h))
  · next i _ hi => exact Or.inr ⟨i, hi, (Option.some.inj h).symm⟩
  · exact Or.inl (isInfix_of_argument h)

/-- The type of a slot is part of the remark that names it. -/
theorem isInfix_of_slotOf? {m : Machine} {slot : Slot} {ty : Option (List Char)}
    (h : m.slotOf? r = some (slot, ty)) :
    ∀ t ∈ ty, ∃ a ∈ r.texts, t <:+: a.toList := by
  have hty : ty = (r.remark.map fun a => labelAndType a.toList).bind (·.2) := by
    unfold slotOf? at h
    dsimp only at h
    split at h
    · exact (congrArg Prod.snd (Option.some.inj h)).symm
    · obtain ⟨i, -, h⟩ := Option.map_eq_some_iff.1 h
      exact (congrArg Prod.snd h).symm
  intro t ht
  rw [hty] at ht
  obtain ⟨p, hp, ht⟩ := Option.bind_eq_some_iff.1 ht
  obtain ⟨a, ha, rfl⟩ := Option.map_eq_some_iff.1 hp
  exact ⟨a, mem_texts_of_remark ha, isInfix_of_type ht⟩

end Machine

end PseudoMove
