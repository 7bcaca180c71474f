import PseudoMove.Proofs.LineTexts
import PseudoMove.Proofs.Scanning
import Mathlib

/-!
# Lines that spell an instruction

An instruction is written with any blanks around it and behind its colon, and with its remark either
in parentheses or behind blanks (`Layout`).  What may be written is what a line can tell apart
(`Instruction.Legible`): an operand ends at the first closing bracket, and a remark at the end of
the line, so a remark may have brackets, parentheses and colons of its own.

* `ofMnemonic_mnemonic` — an opcode is read back from its mnemonic, whichever
  spelling it was read from;
* `instruction?_line` — the pattern of an instruction reads what was written;
* `bodyLine_of_instruction?` — a line that is an instruction is neither a label nor a declaration;
* `readsAs_line` — so every instruction is read back from each of its lines.
-/

namespace PseudoMove

open Text Listing

/-! ## Mnemonics -/

namespace Opcode

/-- A mnemonic is either found in the instruction set, with or without its suffix, or kept as it
is. -/
theorem ofMnemonic_cases {word : List Char} (hw : trim word = word) :
    ofMnemonic word ∈ all ∨ ofMnemonic word = .unknown (String.ofList word) := by
  unfold ofMnemonic
  dsimp only
  rw [hw]
  cases h : all.find? fun op => op.mnemonic =
    String.ofList ((beforeSuffix? "Generic".toList word).getD word) with
  | none => exact .inr rfl
  | some op => exact .inl (List.mem_of_find?_eq_some h)

theorem isIdentifier_mnemonic {word : List Char} (hw : IsIdentifier word) :
    IsIdentifier (ofMnemonic word).mnemonic.toList := by
  have hall : ∀ op ∈ all, IsIdentifier op.mnemonic.toList := by decide +kernel
  rcases ofMnemonic_cases hw.isTrimmed.2 with h | h
  · exact hall _ h
  · rw [h, mnemonic, String.toList_ofList]
    exact hw

/-- **An opcode is read back from its mnemonic**, also if it was read from a mnemonic with the
suffix. -/
theorem ofMnemonic_mnemonic {word : List Char} (hw : IsIdentifier word) :
    ofMnemonic (ofMnemonic word).mnemonic.toList = ofMnemonic word := by
  have hall : ∀ op ∈ all, ofMnemonic op.mnemonic.toList = op := by decide +kernel
  rcases ofMnemonic_cases hw.isTrimmed.2 with h | h
  · exact hall _ h
  · rw [h, mnemonic, String.toList_ofList, h]

end Opcode

/-- What a line can tell of an instruction: an offset that is a word, an operand without a closing
bracket and a remark without a line break, neither with blanks at its ends. -/
structure Instruction.Legible (r : Instruction) : Prop where
  offset_lt : r.offset < wordLimit
  operand : ∀ t ∈ r.operand, trim t.toList = t.toList ∧ ']' ∉ t.toList
  remark : ∀ t ∈ r.remark, trim t.toList = t.toList ∧ '\n' ∉ t.toList

namespace Listing

/-! ## Ways to write an instruction -/

/-- How a remark is set off from what stands before it. -/
inductive RemarkStyle where
  | enclosed
  | spaced (blanks : List Char)
deriving DecidableEq, Repr

/-- A remark in this style. -/
def RemarkStyle.write (remark : Option String) : RemarkStyle → List Char
  | .enclosed => remark.elim [] fun t => '(' :: (t.toList ++ [')'])
  | .spaced blanks => remark.elim [] fun t => blanks ++ t.toList

/-- What stands behind blanks only is no remark if it is empty. -/
def RemarkStyle.Fits (remark : Option String) : RemarkStyle → Prop
  | .enclosed => True
  | .spaced blanks => blanks ≠ [] ∧ blanks.all isBlank = true ∧ remark ≠ some ""

instance (remark : Option String) : (style : RemarkStyle) → Decidable (style.Fits remark)
  | .enclosed => isTrue trivial
  | .spaced _ => inferInstanceAs (Decidable (_ ∧ _ ∧ _))

/-- The blanks of a line that spells an instruction, and the style of its remark. -/
structure Layout where
  before : List Char := []
  gap : List Char := []
  style : RemarkStyle := .enclosed
  behind : List Char := []

/-- An operand in square brackets. -/
def operandText (operand : Option String) : List Char :=
  operand.elim [] fun t => '[' :: (t.toList ++ [']'])

namespace Layout

/-- The line that spells an instruction, with a word for its opcode. -/
def line (l : Layout) (word : List Char) (r : Instruction) : List Char :=
  l.before ++ (Nat.toDigits 10 r.offset ++ ':' :: (l.gap ++ (word ++ (operandText r.operand ++
    (l.style.write r.remark ++ l.behind)))))

/-- The layout has blanks where it may, and its style suits the remark. -/
structure Fits (l : Layout) (r : Instruction) : Prop where
  before : l.before.all isBlank = true
  gap : l.gap.all isBlank = true
  style : l.style.Fits r.remark
  behind : l.behind.all isBlank = true

end Layout

/-! ## Reading it back -/

theorem decimals?_append {ds s : List Char} (hne : ds ≠ []) (hds : ∀ c ∈ ds, isDecimal c = true)
    (hs : Stops isDecimal s) : decimals? (ds ++ s) = some (ds, s) := by
  obtain ⟨ht, hd⟩ := takeWhile_append hds hs
  unfold decimals?
  rw [ht, hd]
  cases ds with
  | nil => exact absurd rfl hne
  | cons c ds => rfl

/-- A text without closing brackets is read up to the one that follows it. -/
theorem operand?_append {t : List Char} (ht : ']' ∉ t) (htrim : trim t = t) (s : List Char) :
    operand? ('[' :: (t ++ ']' :: s)) = some (some t, s) := by
  have hne : ∀ c ∈ t, decide (c ≠ ']') = true := by
    intro c hc
    rw [decide_eq_true_eq]
    rintro rfl
    exact ht hc
  obtain ⟨htake, hdrop⟩ := takeWhile_append (s := ']' :: s) hne (stops_cons (by decide))
  simp only [operand?, htake, hdrop, htrim]

theorem operand?_of_stops {s : List Char} (hs : Stops (· == '[') s) :
    operand? s = some (none, s) := by
  unfold operand?
  split
  · exact absurd (hs '[' rfl) (by decide)
  · rfl

theorem operand?_operandText {operand : Option String}
    (h : ∀ t ∈ operand, trim t.toList = t.toList ∧ ']' ∉ t.toList) {s : List Char}
    (hs : Stops (· == '[') s) :
    operand? (operandText operand ++ s) = some (operand.map String.toList, s) := by
  cases operand with
  | none => exact operand?_of_stops hs
  | some t =>
    obtain ⟨htrim, hclose⟩ := h t rfl
    have hshape : operandText (some t) ++ s = '[' :: (t.toList ++ ']' :: s) := by simp [operandText]
    rw [hshape, operand?_append hclose htrim]
    rfl

/-- In parentheses a remark may be any text on one line: the last parenthesis of the line closes
it. -/
theorem remark?_enclosed {t b : List Char} (htrim : trim t = t) (hline : '\n' ∉ t)
    (hb : b.all isBlank = true) :
    remark? ('(' :: (t ++ ')' :: b)) = some (some t) := by
  have hend : trimEnd (t ++ ')' :: b) = t ++ [')'] := by
    rw [List.append_cons, trimEnd_append hb, trimEnd_eq_self_iff, List.getLast?_concat]
    rintro c ⟨⟩
    decide
  have hsuffix : beforeSuffix? [')'] (t ++ [')']) = some t := beforeSuffix?_eq_some_iff.2 rfl
  rw [remark?_paren, hend, hsuffix]
  simp [onOneLine, hline, htrim]

/-- Blanks alone are no remark. -/
theorem remark?_blanks {b : List Char} (hb : b.all isBlank = true) : remark? b = some none := by
  cases b with
  | nil => rfl
  | cons c b =>
    have hc : isBlank c = true := List.all_eq_true.1 hb c List.mem_cons_self
    rw [remark?_of_ne (ne_of_isBlank hc rfl), if_pos hc, trim_eq_nil_iff.2 (List.all_eq_true.1 hb)]

/-- Behind blanks a remark may be any text on one line that is not empty. -/
theorem remark?_spaced {a t b : List Char} (ha : a ≠ []) (hblank : a.all isBlank = true)
    (ht : IsTrimmed t) (hline : '\n' ∉ t) (hb : b.all isBlank = true) :
    remark? (a ++ (t ++ b)) = some (some t) := by
  obtain ⟨c, a, rfl⟩ := List.exists_cons_of_ne_nil ha
  have hc : isBlank c = true := List.all_eq_true.1 hblank c List.mem_cons_self
  have htrim : trim (c :: (a ++ (t ++ b))) = t :=
    (trim_blanks hblank (t ++ b)).trans ((trim_append hb t).trans ht.2)
  rw [List.cons_append, remark?_of_ne (ne_of_isBlank hc rfl), if_pos hc, htrim]
  cases t with
  | nil => exact absurd rfl ht.1
  | cons d t => exact if_pos (by simpa [onOneLine] using hline)

theorem remark?_write {remark : Option String}
    (h : ∀ t ∈ remark, trim t.toList = t.toList ∧ '\n' ∉ t.toList)
    {style : RemarkStyle} (hstyle : style.Fits remark) {b : List Char} (hb : b.all isBlank = true) :
    remark? (style.write remark ++ b) = some (remark.map String.toList) := by
  cases remark with
  | none => cases style <;> exact remark?_blanks hb
  | some t =>
    obtain ⟨htrim, hline⟩ := h t rfl
    cases style with
    | enclosed =>
      have hshape : RemarkStyle.enclosed.write (some t) ++ b = '(' :: (t.toList ++ ')' :: b) := by
        simp [RemarkStyle.write]
      rw [hshape, remark?_enclosed htrim hline hb, Option.map_some]
    | spaced a =>
      obtain ⟨ha, hblank, ht⟩ := hstyle
      have htrimmed : IsTrimmed t.toList := isTrimmed_toList (fun e => ht (congrArg some e)) htrim
      have hshape : (RemarkStyle.spaced a).write (some t) ++ b = a ++ (t.toList ++ b) := by
        simp [RemarkStyle.write]
      rw [hshape, remark?_spaced ha hblank htrimmed hline hb, Option.map_some]

/-- A remark, or the blanks in its place, begins with nothing that goes on with what stands
before. -/
theorem stops_write {p : Char → Bool} (hparen : p '(' = false)
    (hblank : ∀ c, isBlank c = true → p c = false)
    {remark : Option String} {style : RemarkStyle} (hstyle : style.Fits remark) {b : List Char}
    (hb : b.all isBlank = true) : Stops p (style.write remark ++ b) := by
  have hblanks : ∀ a : List Char, a.all isBlank = true → Stops p a := fun a ha c hc =>
    hblank c (List.all_eq_true.1 ha c (List.mem_of_mem_head? hc))
  cases remark with
  | none => cases style <;> exact hblanks b hb
  | some t =>
    cases style with
    | enclosed => exact stops_cons hparen
    | spaced a =>
      obtain ⟨ha, ha', -⟩ := hstyle
      obtain ⟨c, a, rfl⟩ := List.exists_cons_of_ne_nil ha
      exact stops_cons (hblank c (List.all_eq_true.1 ha' c List.mem_cons_self))

/-- **The pattern of an instruction reads what was written.** -/
theorem instruction?_line {r : Instruction} (hr : r.Legible)
    {word : List Char} (hword : IsIdentifier word)
    (hopcode : Opcode.ofMnemonic word = r.opcode) {l : Layout} (hl : l.Fits r) :
    instruction? (l.line word r) = some r := by
  have hbracket : ∀ c, isBlank c = true → (c == '[') = false :=
    fun c hc => beq_false_of_ne (ne_of_isBlank hc rfl)
  have hremark := remark?_write hr.remark hl.style hl.behind
  have hoperand :=
    operand?_operandText hr.operand (stops_write (by decide) hbracket hl.style hl.behind)
  have hstops :
      Stops isNamePart (operandText r.operand ++ (l.style.write r.remark ++ l.behind)) := by
    cases r.operand with
    | none => exact stops_write (by decide) (fun _ => isNamePart_of_isBlank) hl.style hl.behind
    | some t => exact stops_cons (by decide)
  -- the line from its first digit on, and the rest behind each part of it
  have hne := toDigits_ne_nil r.offset
  have hdigits : ∀ c ∈ Nat.toDigits 10 r.offset, isDecimal c = true := fun c hc =>
    isDecimal_of_isDigit (isDigit_of_mem_toDigits hc)
  have hnumber : (Nat.toDigits 10 r.offset).all isNamePart = true :=
    List.all_eq_true.2 fun c hc => by
    simp [isNamePart, Char.isAlphanum, isDigit_of_mem_toDigits hc]
  have hstart : trimStart (l.line word r) = Nat.toDigits 10 r.offset ++ ':' :: (l.gap ++ (word ++
      (operandText r.operand ++ (l.style.write r.remark ++ l.behind)))) := by
    rw [Layout.line, trimStart_append hl.before, trimStart_of_namePart hne hnumber]
  have hgap : trimStart
      (l.gap ++ (word ++ (operandText r.operand ++ (l.style.write r.remark ++ l.behind)))) =
      word ++ (operandText r.operand ++ (l.style.write r.remark ++ l.behind)) := by
    rw [trimStart_append hl.gap, hword.isTrimmed.trimStart_append]
  unfold instruction?
  rw [hstart, decimals?_append hne hdigits (stops_cons (by decide))]
  simp [afterPrefix?, hgap, hword.name?_append hstops, hoperand, hremark,
    readDigits?_toDigits hr.offset_lt, hopcode]

theorem exists_head_of_decimals? {s : List Char} {r : List Char × List Char}
    (h : decimals? s = some r) :
    ∃ c t, s = c :: t ∧ isDecimal c = true := by
  unfold decimals? at h
  cases s with
  | nil => exact absurd h (by simp)
  | cons c t =>
    refine ⟨c, t, rfl, ?_⟩
    by_contra hc
    rw [List.takeWhile_cons_of_neg hc] at h
    exact absurd h (by simp)

/-- A line that is an instruction begins with a digit, so it is neither a label nor a
declaration. -/
theorem bodyLine_of_instruction? {line : List Char} {r : Instruction}
    (h : instruction? line = some r) :
    bodyLine line = .instruction r := by
  obtain ⟨c, s, hstart, hc⟩ : ∃ c s, trimStart line = c :: s ∧ isDecimal c = true := by
    simp only [instruction?, bind, Option.bind_eq_some_iff] at h
    obtain ⟨ds, hds, -⟩ := h
    exact exists_head_of_decimals? hds
  have hB : c ≠ 'B' := by
    rintro rfl
    exact absurd hc (by decide)
  have hL : c ≠ 'L' := by
    rintro rfl
    exact absurd hc (by decide)
  have hlabel : isLabel line = false := by
    simp [isLabel, hstart, hB]
  have hdecl : slotDecl? line = none := by
    simp [slotDecl?, hstart, hL]
  rw [bodyLine, hlabel, hdecl, h]
  rfl

/-- The line is an instruction, and reads as this one. -/
def ReadsAs (line : List Char) (r : Instruction) : Prop :=
  instruction? line = some r ∧ bodyLine line = .instruction r

instance (line : List Char) (r : Instruction) : Decidable (ReadsAs line r) :=
  inferInstanceAs (Decidable (_ ∧ _))

/-- **Every instruction is read back from each of its lines**: in any layout, with its own mnemonic
as well as with any other word that spells its opcode. -/
theorem readsAs_line {r : Instruction} (hr : r.Legible)
    {word : List Char} (hword : IsIdentifier word)
    (hopcode : Opcode.ofMnemonic word = r.opcode) {l : Layout} (hl : l.Fits r) :
    ReadsAs (l.line word r) r ∧ ReadsAs (l.line r.opcode.mnemonic.toList r) r := by
  have hown : IsIdentifier r.opcode.mnemonic.toList := hopcode ▸ Opcode.isIdentifier_mnemonic hword
  have hownOpcode : Opcode.ofMnemonic r.opcode.mnemonic.toList = r.opcode := by
    rw [← hopcode]
    exact Opcode.ofMnemonic_mnemonic hword
  have hread := instruction?_line hr hword hopcode hl
  have hreadOwn := instruction?_line hr hown hownOpcode hl
  exact ⟨⟨hread, bodyLine_of_instruction? hread⟩, ⟨hreadOwn, bodyLine_of_instruction? hreadOwn⟩⟩

/-- A call whose operand opens what it does not close, and whose remark has brackets, parentheses
and colons of its own. -/
def nestedCall : Instruction where
  offset := 18446744073709551615
  opcode := .call
  operand := some "B0: (["
  remark := some "m::f<T>(u8, (u64)): (u8, u64)"

/-- A remark in parentheses, on an indented line with a line break at its end. -/
def indentedLayout : Layout := { before := ['\t'], behind := ['\n'] }

/-- A remark behind blanks. -/
def spacedLayout : Layout := { gap := [' '], style := .spaced [' ', '\t', ' '], behind := [' '] }

/-- The call in both styles, with and without the suffix. -/
theorem readsAs_line_nestedCall :
    nestedCall.Legible ∧ indentedLayout.Fits nestedCall ∧ spacedLayout.Fits nestedCall ∧
      Opcode.ofMnemonic "CallGeneric".toList = nestedCall.opcode ∧
      ReadsAs "\t18446744073709551615:CallGeneric[B0: ([](m::f<T>(u8, (u64)): (u8, u64))\n".toList
        nestedCall ∧
      ReadsAs "18446744073709551615: Call[B0: ([] \t m::f<T>(u8, (u64)): (u8, u64) ".toList
        nestedCall := by
  have hlegible : nestedCall.Legible :=
    ⟨by decide, by rintro t ⟨⟩; decide, by rintro t ⟨⟩; decide⟩
  have hindented : indentedLayout.Fits nestedCall := ⟨by decide, by decide, by decide, by decide⟩
  have hspaced : spacedLayout.Fits nestedCall := ⟨by decide, by decide, by decide, by decide⟩
  have hword : IsIdentifier "CallGeneric".toList := by decide
  have hopcode : Opcode.ofMnemonic "CallGeneric".toList = nestedCall.opcode := by decide
  exact ⟨hlegible, hindented, hspaced, hopcode, (readsAs_line hlegible hword hopcode hindented).1,
    (readsAs_line hlegible hword hopcode hspaced).2⟩

end Listing

end PseudoMove
