import PseudoMove.Machine

/-!
# Labels of slots

A remark such as `Arg2: Coin<SUI>` or `loc0: u64` names a slot, and so does the label without a
type.  `slotOf?_of_label` says that it is read back: whatever text stands for the type, the
instruction means the slot, as long as its number is a machine word.
-/

namespace PseudoMove

open Text Remark

/-- The number of a slot among the parameters or among the locals. -/
def Slot.number : Slot → Nat
  | .arg n => n
  | .loc n => n

/-- The label of a slot in a remark. -/
def Slot.word : Slot → String
  | .arg n => "Arg" ++ toString n
  | .loc n => "loc" ++ toString n

/-- The remark that names a slot and gives its type. -/
def Slot.remark (s : Slot) (ty : String) : String := s.word ++ ": " ++ ty

/-- The instruction names the slot `s` in its remark, with some type. -/
def Annotated (r : Instruction) (s : Slot) : Prop :=
  s.number < wordLimit ∧ ∃ ty, r.remark = some (s.remark ty)

/-! ## Reading a remark -/

/-- A character of a label is no colon, no bracket and no blank. -/
theorem label_char {s : Slot} {c : Char} (h : c ∈ s.word.toList) :
    (c ≠ ':' ∧ depthChange c = 0) ∧ isBlank c = false := by
  have hdigit : c.isDigit = true → (c ≠ ':' ∧ depthChange c = 0) ∧ isBlank c = false := by
    intro hd
    obtain ⟨h1, h2⟩ := toNat_of_isDigit hd
    have ascii : ∀ n < 128, 48 ≤ n → n ≤ 57 →
        (Char.ofNat n ≠ ':' ∧ depthChange (Char.ofNat n) = 0) ∧ isBlank (Char.ofNat n) = false := by
      decide
    have := ascii c.toNat (by omega) (by omega) (by omega)
    rwa [Char.ofNat_toNat] at this
  have hall : "Argloc".toList.all
      (fun c => decide ((c ≠ ':' ∧ depthChange c = 0) ∧ isBlank c = false)) = true := by decide
  have hletter : ∀ c ∈ "Argloc".toList, (c ≠ ':' ∧ depthChange c = 0) ∧ isBlank c = false :=
    fun c hc => of_decide_eq_true (List.all_eq_true.1 hall c hc)
  have hword : c ∈ "Argloc".toList ∨ c ∈ Nat.toDigits 10 s.number := by
    cases s with
    | arg n =>
      rw [Slot.word, String.toList_append, List.mem_append, Nat.toString_eq_repr,
        Nat.toList_repr] at h
      exact h.imp (fun h => List.mem_append_left "loc".toList h) id
    | loc n =>
      rw [Slot.word, String.toList_append, List.mem_append, Nat.toString_eq_repr,
        Nat.toList_repr] at h
      exact h.imp (fun h => List.mem_append_right "Arg".toList h) id
  rcases hword with h | h
  · exact hletter c h
  · exact hdigit (isDigit_of_mem_toDigits h)

theorem digitsAfter?_append (word : String) (n : Nat) :
    digitsAfter? word (word ++ toString n).toList = some (Nat.toDigits 10 n) := by
  have h : afterPrefix? word.toList (word ++ toString n).toList = some (Nat.toDigits 10 n) := by
    rw [afterPrefix?_eq_some_iff, String.toList_append, Nat.toString_eq_repr, Nat.toList_repr]
  unfold digitsAfter?
  rw [h]
  refine if_pos ⟨toDigits_ne_nil n, List.all_eq_true.2 fun c hc => ?_⟩
  exact isDecimal_of_isDigit (isDigit_of_mem_toDigits hc)

theorem slot?_word {s : Slot} (h : s.number < wordLimit) : slot? s.word.toList = some s := by
  cases s with
  | arg n =>
    have hd : readDigits? (Nat.toDigits 10 n) = some n := readDigits?_toDigits h
    rw [slot?, Slot.word, digitsAfter?_append, Option.bind_some, hd]
    rfl
  | loc n =>
    have hn : digitsAfter? "Arg" ("loc" ++ toString n).toList = none := by
      rw [String.toList_append]
      rfl
    have hd : readDigits? (Nat.toDigits 10 n) = some n := readDigits?_toDigits h
    rw [slot?, localNumber?, Slot.word, digitsAfter?_append, hn, Option.bind_some, hd]
    rfl

theorem trim_word (s : Slot) : trim s.word.toList = s.word.toList :=
  trim_of_forall fun _ hc => (label_char hc).2

/-- A label alone. -/
theorem labelAndType_word (s : Slot) : labelAndType s.word.toList = (s.word.toList, none) := by
  unfold labelAndType
  rw [splitAtColon_of_forall fun c hc => (label_char hc).1.1]
  dsimp only
  rw [trim_word]

/-- A label with a type behind a colon. -/
theorem labelAndType_append (s : Slot) {ty : List Char} (h : ty.head? ≠ some ':') :
    labelAndType (s.word.toList ++ ':' :: ty) = (s.word.toList, some (trim ty)) := by
  unfold labelAndType
  rw [splitAtColon_append (fun c hc => (label_char hc).1) h]
  dsimp only
  rw [trim_word]

theorem labelAndType_remark (s : Slot) (ty : String) :
    labelAndType (s.remark ty).toList = (s.word.toList, some (trim (' ' :: ty.toList))) := by
  have e : (s.remark ty).toList = s.word.toList ++ ':' :: ' ' :: ty.toList := by
    rw [Slot.remark, String.toList_append, String.toList_append, List.append_assoc]
    rfl
  rw [e, labelAndType_append s (by simp)]

namespace Machine

/-- **An instruction with a label means the slot of the label**, whatever its operand
and the declarations. -/
theorem slotOf?_of_label (m : Machine) {r : Instruction} {s : Slot} {a : String}
    {ty : Option (List Char)} (hs : s.number < wordLimit) (hr : r.remark = some a)
    (ha : labelAndType a.toList = (s.word.toList, ty)) :
    m.slotOf? r = some (s, ty) := by
  unfold slotOf?
  rw [hr, Option.map_some, ha]
  dsimp only [Option.bind_some]
  rw [slot?_word hs]

theorem slotOf?_of_annotated (m : Machine) {r : Instruction} {s : Slot} (h : Annotated r s) :
    ∃ ty, m.slotOf? r = some (s, ty) := by
  obtain ⟨hs, ty, hr⟩ := h
  exact ⟨_, m.slotOf?_of_label hs hr (labelAndType_remark s ty)⟩

end Machine

end PseudoMove
