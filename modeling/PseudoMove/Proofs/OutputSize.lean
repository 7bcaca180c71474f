import PseudoMove.Proofs.BracketPartner
import PseudoMove.Proofs.LineTexts
import PseudoMove.Proofs.NameSize
import PseudoMove.Proofs.StackEffect

/-!
# How much a body writes

An instruction writes what it takes from the stack, with a bounded number of bytes around it
(`adds_effect`).  Only an unpacking writes what it takes more than once, as often as its element
count says.  So along a run the bytes on the stack and in the statements, with two more for each
fragment that a list may put a separator after, stay below a sum of line sizes times the product of
the counts of all unpackings (`size_foldl_step_le`).

* `Machine.size` — the measure, and `size_apply` for what an effect does to it;
* `Machine.potential` — what the machine may hold after the rest of the instructions, which no step
  raises;
* `Machine.size_run_le` — the bound for a whole function.
-/

namespace PseudoMove

open Text Fragment TypeText Remark PseudoMove.Bracket
open String (ofList utf8ByteSize utf8ByteSize_append utf8ByteSize_ofList utf8Len utf8Len_nil
  utf8Len_cons utf8Len_append utf8Len_toList utf8Len_le_of_infix)

/-! ## Sizes of texts -/

theorem length_toList_le (s : String) : s.toList.length ≤ s.utf8ByteSize := by
  have h := Bracket.length_le_byteLength s.toList
  rwa [Bracket.byteLength, String.ofList_toList] at h

/-- The bytes of some texts. -/
def totalSize (ts : List String) : Nat := (ts.map utf8ByteSize).sum

/-- The bytes of some texts in a list, each with two more for a separator. -/
def listSize (ts : List String) : Nat := (ts.map fun t => t.utf8ByteSize + 2).sum

@[simp] theorem totalSize_nil : totalSize [] = 0 := rfl

@[simp] theorem totalSize_cons (t : String) (ts : List String) :
    totalSize (t :: ts) = t.utf8ByteSize + totalSize ts := rfl

@[simp] theorem totalSize_append (ts us : List String) :
    totalSize (ts ++ us) = totalSize ts + totalSize us := by
  simp [totalSize]

@[simp] theorem totalSize_reverse (ts : List String) : totalSize ts.reverse = totalSize ts := by
  simp [totalSize, List.sum_reverse]

@[simp] theorem listSize_nil : listSize [] = 0 := rfl

@[simp] theorem listSize_cons (t : String) (ts : List String) :
    listSize (t :: ts) = t.utf8ByteSize + 2 + listSize ts := rfl

@[simp] theorem listSize_append (ts us : List String) :
    listSize (ts ++ us) = listSize ts + listSize us := by
  simp [listSize]

theorem totalSize_le_listSize (ts : List String) : totalSize ts ≤ listSize ts := by
  induction ts with
  | nil => exact Nat.le_refl 0
  | cons t ts ih =>
    rw [totalSize_cons, listSize_cons]
    omega

@[simp] theorem listSize_reverse (ts : List String) : listSize ts.reverse = listSize ts := by
  simp [listSize, List.sum_reverse]

theorem listSize_le {ts : List String} {n : Nat} (h : ∀ t ∈ ts, t.utf8ByteSize + 2 ≤ n) :
    listSize ts ≤ ts.length * n := by
  induction ts with
  | nil => simp
  | cons t ts ih =>
    have h1 := h t List.mem_cons_self
    have h2 := ih fun u hu => h u (List.mem_cons_of_mem t hu)
    rw [listSize_cons, List.length_cons, Nat.succ_mul]
    omega

theorem size_intercalate_le (sep : String) (hsep : sep.utf8ByteSize ≤ 2) (ts : List String) :
    (sep.intercalate ts).utf8ByteSize ≤ listSize ts := by
  induction ts with
  | nil => simp
  | cons t ts ih =>
    cases ts with
    | nil => simp
    | cons u us =>
      rw [String.intercalate_cons_cons, utf8ByteSize_append, utf8ByteSize_append, listSize_cons]
      omega

theorem size_commaList_le (fs : List String) : (commaList fs).utf8ByteSize ≤ listSize fs :=
  size_intercalate_le _ (by decide) fs

/-! ## Fragments inside fragments -/

theorem size_ofList_le {s : List Char} {t : String} (h : s <:+: t.toList) :
    (ofList s).utf8ByteSize ≤ t.utf8ByteSize := by
  rw [utf8ByteSize_ofList, ← utf8Len_toList t]
  exact utf8Len_le_of_infix h

theorem size_unborrowed_le (f : String) : (unborrowed f).utf8ByteSize ≤ f.utf8ByteSize := by
  unfold unborrowed
  split
  · next r hr => exact size_ofList_le (isSuffix_of_afterPrefix? hr).isInfix
  · split
    · next r hr => exact size_ofList_le (hr ▸ (List.suffix_cons '&' r).isInfix)
    · exact Nat.le_refl _

/-- The bytes of the fixed texts that are written around fragments and names. -/
theorem size_fixed :
    "let ".utf8ByteSize = 4 ∧ "let (".utf8ByteSize = 5 ∧ " = ".utf8ByteSize = 3 ∧
    ") = ".utf8ByteSize = 4 ∧ ";".utf8ByteSize = 1 ∧ ");".utf8ByteSize = 2 ∧
    "_ = ".utf8ByteSize = 4 ∧ "return ".utf8ByteSize = 7 ∧ "return (".utf8ByteSize = 8 ∧
    "return;".utf8ByteSize = 7 ∧ "abort ".utf8ByteSize = 6 ∧ "// ".utf8ByteSize = 3 ∧
    "// unresolved call ".utf8ByteSize = 19 ∧ "if ".utf8ByteSize = 3 ∧ " goto ".utf8ByteSize = 6 ∧
    "goto ".utf8ByteSize = 5 ∧ " \x7b ... \x7d".utf8ByteSize = 8 ∧
    " \x7b ... \x7d = ".utf8ByteSize = 11 ∧ "".utf8ByteSize = 0 ∧ "&".utf8ByteSize = 1 ∧
    "&mut ".utf8ByteSize = 5 ∧ "*".utf8ByteSize = 1 ∧ "!".utf8ByteSize = 1 ∧ ".".utf8ByteSize = 1 ∧
    "(".utf8ByteSize = 1 ∧ ")".utf8ByteSize = 1 ∧ " ".utf8ByteSize = 1 ∧ " as ".utf8ByteSize = 4 ∧
    ", ".utf8ByteSize = 2 ∧ "::".utf8ByteSize = 2 ∧ "true".utf8ByteSize = 4 ∧
    "false".utf8ByteSize = 5 ∧ "vector[".utf8ByteSize = 7 ∧ "[".utf8ByteSize = 1 ∧
    "]".utf8ByteSize = 1 ∧ ".length()".utf8ByteSize = 9 ∧ ".borrow(".utf8ByteSize = 8 ∧
    ".borrow_mut(".utf8ByteSize = 12 ∧ ".push_back(".utf8ByteSize = 11 ∧
    ".pop_back()".utf8ByteSize = 11 ∧ ".swap(".utf8ByteSize = 6 ∧ "move_to(".utf8ByteSize = 8 ∧
    "<".utf8ByteSize = 1 ∧ ">(".utf8ByteSize = 2 ∧ ">".utf8ByteSize = 1 ∧
    "CONST_".utf8ByteSize = 6 ∧ "result".utf8ByteSize = 6 ∧
    Fragment.placeholder.utf8ByteSize = 1 := by decide

theorem size_dereferenced_le (f : String) : (dereferenced f).utf8ByteSize ≤ f.utf8ByteSize + 1 := by
  have := size_unborrowed_le f
  unfold dereferenced
  split
  · omega
  · simp only [utf8ByteSize_append, size_fixed]
    omega

theorem size_freeze_le (f : String) : (freeze f).utf8ByteSize ≤ f.utf8ByteSize := by
  unfold freeze
  split
  · next r hr =>
    have e : f.utf8ByteSize = 5 + utf8Len r := by
      rw [← utf8Len_toList, afterPrefix?_eq_some_iff.1 hr, utf8Len_append]
      rfl
    rw [utf8ByteSize_append, utf8ByteSize_ofList r, e]
    simp only [size_fixed]
    omega
  · exact Nat.le_refl _

theorem size_inParentheses_le (f : String) :
    (inParentheses f).utf8ByteSize ≤ f.utf8ByteSize + 2 := by
  unfold inParentheses
  split
  · omega
  · simp only [utf8ByteSize_append, size_fixed]
    omega

theorem size_negated_le (f : String) : (negated f).utf8ByteSize ≤ f.utf8ByteSize + 3 := by
  have := size_inParentheses_le f
  unfold negated
  simp only [utf8ByteSize_append, size_fixed]
  split <;> omega

/-! ## Callees -/

/-- The pieces of a list, with a separator for each, take the bytes of the list and one more. -/
theorem sum_topPieces {sep : Char} (hsep : sep.utf8Size = 1) (depth : Nat) (s : List Char) :
    ((topPieces sep depth s).map fun p => utf8Len p + 1).sum = utf8Len s + 1 := by
  induction s generalizing depth with
  | nil => rfl
  | cons c s ih =>
    have := ih (depthAfter c depth)
    unfold topPieces
    dsimp only
    split
    · next h =>
      rw [List.map_cons, List.sum_cons, this, utf8Len_nil, utf8Len_cons, h.1, hsep]
      omega
    · cases hp : topPieces sep (depthAfter c depth) s with
      | nil => rw [hp] at this; simp at this
      | cons p ps =>
        rw [hp] at this
        rw [List.modifyHead_cons, List.map_cons, List.sum_cons, utf8Len_cons, utf8Len_cons]
        rw [List.map_cons, List.sum_cons] at this
        omega

theorem listSize_typeList_le (s : List Char) :
    listSize (Callee.typeList s) ≤ 2 * (utf8Len s + 1) := by
  have hpieces : ∀ ps : List (List Char), listSize ((ps.map trim).map ofList) ≤
      2 * (ps.map fun p => utf8Len p + 1).sum := by
    intro ps
    induction ps with
    | nil => simp
    | cons p ps ih =>
      have := utf8Len_le_of_infix (isInfix_trim p)
      simp only [List.map_cons, listSize_cons, List.sum_cons, utf8ByteSize_ofList]
      omega
  have htop := hpieces (topPieces ',' 0 s)
  rw [sum_topPieces rfl] at htop
  unfold Callee.typeList splitOutside
  split
  · simp
  · dsimp only
    split
    · refine Nat.le_trans ?_ htop
      unfold listSize
      exact List.Sublist.sum_le_sum (((List.dropLast_sublist _).map ofList).map _) (by simp)
    · exact htop

theorem typeArguments_of_read? {remark : List Char} {f : Callee}
    (h : Callee.read? remark = some f) :
    ∃ s, s <:+: remark ∧ f.typeArguments = Callee.typeList s := by
  unfold Callee.read? at h
  dsimp only at h
  split at h
  · exact absurd h (by simp)
  · split at h
    · next r hr =>
      obtain ⟨p, hp, h⟩ := Option.bind_eq_some_iff.1 h
      refine ⟨p.1, ?_, (of_readParameters? h).2⟩
      have hsuffix : '<' :: r <:+ trim remark := hr ▸ List.dropWhile_suffix _
      exact (parts_of_splitAtClose hp).1.isInfix.trans
        (((List.suffix_cons '<' r).trans hsuffix).isInfix.trans (isInfix_trim remark))
    · exact ⟨[], List.nil_infix, (of_readParameters? h).2⟩

theorem utf8Len_shortPath_le (path : List Char) :
    utf8Len (shortPath path) ≤ 2 * utf8Len path + 2 := by
  have hseg : ∀ q ∈ (segments path).map trim, utf8Len q ≤ utf8Len path := by
    intro q hq
    obtain ⟨p, hp, rfl⟩ := List.mem_map.1 hq
    exact utf8Len_le_of_infix ((isInfix_trim p).trans (isInfix_of_mem_segments hp))
  have hlength :
      (((segments path).map trim).drop (((segments path).map trim).length - 2)).length ≤ 2 := by
    rw [List.length_drop]
    omega
  have hdrop : ∀ q ∈ ((segments path).map trim).drop (((segments path).map trim).length - 2),
      utf8Len q ≤ utf8Len path := fun q hq => hseg q (List.mem_of_mem_drop hq)
  unfold shortPath
  dsimp only
  generalize ((segments path).map trim).drop (((segments path).map trim).length - 2) =
    segs at hlength hdrop
  have hcolons : utf8Len "::".toList = 2 := rfl
  match segs with
  | [] => simp
  | [a] =>
    have := hdrop a (by simp)
    simp only [List.intercalate_singleton]
    omega
  | [a, b] =>
    have := hdrop a (by simp)
    have := hdrop b (by simp)
    simp only [List.intercalate_cons_cons, List.intercalate_singleton, utf8Len_append]
    omega
  | _ :: _ :: _ :: _ =>
    simp only [List.length_cons] at hlength
    omega

/-- A callee takes four times the bytes of its remark at most, and a few more. -/
theorem size_render_le {remark : String} {f : Callee}
    (h : Callee.read? remark.toList = some f) (keep : Bool) :
    (f.render keep).utf8ByteSize ≤ 4 * remark.utf8ByteSize + 6 := by
  have hpath : (ofList (shortPath f.path.toList)).utf8ByteSize ≤ 2 * remark.utf8ByteSize + 2 := by
    have h1 := utf8Len_shortPath_le f.path.toList
    have h2 := utf8Len_le_of_infix (isInfix_of_read? h).1
    rw [utf8Len_toList remark] at h2
    rw [utf8ByteSize_ofList]
    omega
  have hargs : (", ".intercalate f.typeArguments).utf8ByteSize ≤ 2 * remark.utf8ByteSize + 2 := by
    obtain ⟨s, hs, e⟩ := typeArguments_of_read? h
    have h1 := size_intercalate_le ", " (by decide) f.typeArguments
    have h2 := listSize_typeList_le s
    have h3 := utf8Len_le_of_infix hs
    rw [utf8Len_toList remark] at h3
    rw [e] at h1 ⊢
    omega
  unfold Callee.render
  dsimp only
  split
  · simp only [utf8ByteSize_append, size_fixed]
    omega
  · omega

/-! ## Instructions -/

/-- The bytes of the longest text that an instruction keeps of its line. -/
def Instruction.size (r : Instruction) : Nat := r.texts.foldr (fun t n => max t.utf8ByteSize n) 0

theorem Instruction.le_size {r : Instruction} {t : String} (h : t ∈ r.texts) :
    t.utf8ByteSize ≤ r.size := by
  unfold size
  generalize r.texts = ts at h
  induction ts with
  | nil => exact absurd h List.not_mem_nil
  | cons u us ih =>
    rw [List.foldr_cons]
    rcases List.mem_cons.1 h with rfl | h
    · exact Nat.le_max_left _ _
    · exact (ih h).trans (Nat.le_max_right _ _)

theorem Instruction.size_le {r : Instruction} {n : Nat} (h : ∀ t ∈ r.texts, t.utf8ByteSize ≤ n) :
    r.size ≤ n := by
  unfold size
  generalize r.texts = ts at h
  induction ts with
  | nil => exact Nat.zero_le n
  | cons u us ih =>
    exact Nat.max_le.2 ⟨h u List.mem_cons_self, ih fun t ht => h t (List.mem_cons_of_mem u ht)⟩

namespace Machine

section Line

variable {r : Instruction}

theorem size_of_part {s : String} (h : ∃ t ∈ r.texts, s.toList <:+: t.toList) :
    s.utf8ByteSize ≤ r.size := by
  obtain ⟨t, ht, hpart⟩ := h
  have := utf8Len_le_of_infix hpart
  rw [utf8Len_toList, utf8Len_toList] at this
  exact this.trans (Instruction.le_size ht)

theorem size_orPlaceholder_le {x : Option String} {n : Nat}
    (h : ∀ s, x = some s → s.utf8ByteSize ≤ n) :
    (orPlaceholder x).utf8ByteSize ≤ n + 1 := by
  cases x with
  | none =>
    have := size_fixed
    show placeholder.utf8ByteSize ≤ n + 1
    omega
  | some s => exact (h s rfl).trans (Nat.le_succ n)

theorem size_structOf_le : (orPlaceholder (structOf? r)).utf8ByteSize ≤ r.size + 1 :=
  size_orPlaceholder_le fun _ h => size_of_part (isInfix_of_structOf? h)

theorem size_fieldOf_le : (orPlaceholder (fieldOf? r)).utf8ByteSize ≤ r.size + 1 :=
  size_orPlaceholder_le fun _ h => size_of_part (isInfix_of_fieldOf? h)

theorem size_targetOf_le : (targetOf r).utf8ByteSize ≤ r.size + 1 :=
  size_orPlaceholder_le fun _ h => size_of_part (isInfix_of_argument h)

theorem size_constant_le : (orPlaceholder (constant? r)).utf8ByteSize ≤ r.size + 27 := by
  refine size_orPlaceholder_le fun s h => ?_
  rcases isInfix_of_constant? h with h | ⟨i, hi, rfl⟩
  · exact (size_of_part h).trans (Nat.le_add_right _ 26)
  · have := size_toString_le (Instruction.lt_of_operandIndex hi)
    rw [utf8ByteSize_append]
    simp only [size_fixed]
    omega

theorem size_resultCount_le {f : Callee} (h : callee? r = some f) : f.resultCount ≤ r.size := by
  obtain ⟨a, ha, hread⟩ := Option.bind_eq_some_iff.1 h
  have h1 := TypeText.resultCount_le f.returnType.toList
  have h2 := (Callee.of_read? hread).2.length_le
  have h3 := length_toList_le a
  have h4 := Instruction.le_size (mem_texts_of_remark ha)
  show TypeText.resultCount f.returnType.toList ≤ r.size
  omega

/-- The local that an instruction means has a number that is a machine word, if all declared ones
do. -/
theorem number_lt_of_slotOf? {m : Machine} (hm : ∀ p ∈ m.declared, p.2 < wordLimit) {slot : Slot}
    {ty : Option (List Char)} (h : m.slotOf? r = some (slot, ty)) : slot.number < wordLimit := by
  unfold slotOf? at h
  dsimp only at h
  split at h
  · next s hs =>
    obtain ⟨rfl, -⟩ := Prod.mk.inj (Option.some.inj h)
    obtain ⟨p, -, hs⟩ := Option.bind_eq_some_iff.1 hs
    have hdigits : ∀ {o : Option (List Char)} {n : Nat}, o.bind readDigits? = some n →
        n < wordLimit := by
      intro o n h
      obtain ⟨ds, -, h⟩ := Option.bind_eq_some_iff.1 h
      exact lt_of_readDigits? h
    rcases Option.or_eq_some_iff.1 hs with hs | ⟨-, hs⟩ <;>
      obtain ⟨n, hn, rfl⟩ := Option.map_eq_some_iff.1 hs <;> exact hdigits hn
  · obtain ⟨i, hi, h⟩ := Option.map_eq_some_iff.1 h
    have hlt := Instruction.lt_of_operandIndex hi
    obtain ⟨rfl, -⟩ := Prod.mk.inj h
    split
    · exact hlt
    · show (m.declared.lookup i).getD (i - m.header.parameters.length) < wordLimit
      cases hl : m.declared.lookup i with
      | none =>
        rw [Option.getD_none]
        omega
      | some n =>
        obtain ⟨l₁, l₂, he, -⟩ := List.lookup_eq_some_iff.1 hl
        exact hm (i, n) (by rw [he]; simp)

end Line

/-! ## What lies on the stack -/

theorem size_operand_le (m : Machine) :
    (m.operand 0).utf8ByteSize ≤ listSize (m.stack.take 1) + 1 := by
  have := size_fixed
  unfold operand
  rcases m.stack with _ | ⟨a, s⟩ <;> simp <;> omega

theorem size_two_operands_le (m : Machine) :
    (m.operand 0).utf8ByteSize + (m.operand 1).utf8ByteSize ≤ listSize (m.stack.take 2) + 2 := by
  have := size_fixed
  unfold operand
  rcases m.stack with _ | ⟨a, _ | ⟨b, s⟩⟩ <;> simp <;> omega

theorem size_three_operands_le (m : Machine) :
    (m.operand 0).utf8ByteSize + (m.operand 1).utf8ByteSize + (m.operand 2).utf8ByteSize ≤
      listSize (m.stack.take 3) + 3 := by
  have := size_fixed
  unfold operand
  rcases m.stack with _ | ⟨a, _ | ⟨b, _ | ⟨c, s⟩⟩⟩ <;> simp <;> omega

/-- Of the placeholders for missing operands there are few. -/
theorem listSize_operands_le (m : Machine) (n : Nat) :
    listSize (m.operands n) ≤ listSize (m.stack.take n) + 48 := by
  have hfew : ∀ k ≤ 16, listSize (List.replicate k placeholder) ≤ 48 := by decide
  unfold operands maxPlaceholders
  dsimp only
  rw [listSize_append, listSize_reverse]
  have := hfew (if n - m.stack.length ≤ 16 then n - m.stack.length else 1) (by split <;> omega)
  omega

/-! ## Effects -/

/-- The bytes that a machine holds: its statements, and the fragments on its stack
with room for separators. -/
def size (m : Machine) : Nat := totalSize m.emitted + listSize m.stack

/-- What holds of a machine throughout a run over texts of at most `n` bytes. -/
structure Sized (n : Nat) (m : Machine) : Prop where
  locals : m.locals.Sized (2 * n + 49)
  declared : ∀ p ∈ m.declared, p.2 < wordLimit

end Machine

/-- The bytes that an effect writes. -/
def Effect.size (e : Effect) : Nat := totalSize e.statement.toList + listSize e.pushes

/-- An effect writes at most `n` bytes more than it takes. -/
def Effect.Adds (m : Machine) (e : Effect) (n : Nat) : Prop :=
  e.size ≤ listSize (m.stack.take e.pops) + n

namespace Machine

/-- What an effect takes goes, and what it writes comes. -/
theorem size_apply (m : Machine) (e : Effect) :
    (m.apply e).size + listSize (m.stack.take e.pops) = m.size + e.size := by
  have hstack := congrArg listSize (List.take_append_drop e.pops m.stack)
  rw [listSize_append] at hstack
  simp only [size, apply, Effect.size, totalSize_append, listSize_append, listSize_reverse]
  omega

variable {m : Machine} {r : Instruction} {n : Nat}

section Effects

variable (hm : m.Sized n) (hr : r.size ≤ n) (hu : m.locals.supply.used.length + r.size < wordLimit)
include hm hr hu

theorem Sized.localUse :
    (m.localUse r).name.utf8ByteSize ≤ 2 * n + 49 ∧ (m.localUse r).locals.Sized (2 * n + 49) ∧
      (m.localUse r).locals.supply.used.length ≤ m.locals.supply.used.length + 1 := by
  have := size_fixed
  unfold Machine.localUse
  split
  · refine ⟨?_, hm.locals, Nat.le_succ _⟩
    show placeholder.utf8ByteSize ≤ 2 * n + 49
    omega
  · next slot ty h =>
    have hty : ∀ t ∈ ty, utf8Len t ≤ n := by
      intro t ht
      obtain ⟨a, ha, hpart⟩ := isInfix_of_slotOf? h t ht
      have := utf8Len_le_of_infix hpart
      rw [utf8Len_toList] at this
      exact (this.trans (Instruction.le_size ha)).trans hr
    have hbase := size_localBase_le slot hty (number_lt_of_slotOf? hm.declared h)
    exact hm.locals.bind (by omega) slot (by omega)

/-- The table after an instruction: the names have their bounded sizes, and there are few new
ones. -/
theorem Sized.effect :
    (m.effect r).locals.Sized (2 * n + 49) ∧
      (m.effect r).locals.supply.used.length ≤ m.locals.supply.used.length + (r.size + 1) := by
  have hsame : ∀ {t : LocalNames}, t = m.locals → t.Sized (2 * n + 49) ∧
      t.supply.used.length ≤ m.locals.supply.used.length + (r.size + 1) := by
    rintro t rfl
    exact ⟨hm.locals, Nat.le_add_right _ _⟩
  have huse : (m.localUse r).locals.Sized (2 * n + 49) ∧
      (m.localUse r).locals.supply.used.length ≤ m.locals.supply.used.length + (r.size + 1) := by
    obtain ⟨-, hsized, hused⟩ := hm.localUse hr hu
    exact ⟨hsized, by omega⟩
  cases hop : r.opcode
  case call =>
    cases hf : callee? r with
    | none =>
      rw [m.effect_unresolvedCall hop hf]
      exact hsame rfl
    | some f =>
      rw [m.effect_call hop hf]
      unfold callEffect
      dsimp only
      split
      · exact hsame rfl
      · exact hsame rfl
      · have hcount := size_resultCount_le hf
        obtain ⟨-, hsized, hlength⟩ :=
          hm.locals.temporaries (by omega : _ + f.resultCount ≤ wordLimit) "result"
        exact ⟨hsized, by dsimp only; omega⟩
  all_goals rw [Machine.effect, hop]
  all_goals dsimp only
  case copyLoc | moveLoc | immBorrowLoc | mutBorrowLoc | stLoc => exact huse
  case ret =>
    unfold returnEffect
    split <;> exact hsame rfl
  all_goals exact hsame rfl

theorem adds_readEffect {borrow : String} (hb : borrow.utf8ByteSize ≤ 5) :
    (m.readEffect r borrow).Adds m (62 * r.size + 2 * n + 100) := by
  have hname := (hm.localUse hr hu).1
  simp only [Effect.Adds, Effect.size, readEffect, listSize_cons, listSize_nil, utf8ByteSize_append,
    Option.toList_none, totalSize_nil]
  omega

theorem adds_storeEffect : (m.storeEffect r).Adds m (62 * r.size + 2 * n + 100) := by
  have hname := (hm.localUse hr hu).1
  have htop := m.size_operand_le
  have hlet :
      (if (m.localUse r).slot.any fun s => decide (s ∉ m.assigned) then "let "
        else "").utf8ByteSize ≤ 4 := by
    split <;> decide
  simp only [Effect.Adds, Effect.size, storeEffect, listSize_nil, utf8ByteSize_append,
    Option.toList_some, totalSize_cons, totalSize_nil, size_fixed]
  omega

theorem adds_callEffect {f : Callee} (hf : callee? r = some f) :
    (m.callEffect f).Adds m (62 * r.size + 2 * n + 100) := by
  have hcall : (f.render m.options.keepTypeArguments ++ "(" ++ commaList (m.operands f.arity) ++
      ")").utf8ByteSize ≤ 4 * r.size + listSize (m.stack.take f.arity) + 56 := by
    obtain ⟨a, ha, hread⟩ := Option.bind_eq_some_iff.1 hf
    have h1 := size_render_le hread m.options.keepTypeArguments
    have h2 := Instruction.le_size (mem_texts_of_remark ha)
    have h3 := size_commaList_le (m.operands f.arity)
    have h4 := m.listSize_operands_le f.arity
    simp only [utf8ByteSize_append, size_fixed]
    omega
  unfold callEffect Effect.Adds Effect.size
  dsimp only
  generalize f.render m.options.keepTypeArguments ++ "(" ++ commaList (m.operands f.arity) ++ ")" =
    call at hcall ⊢
  split
  · simp only [Option.toList_some, totalSize_cons, totalSize_nil, listSize_nil,
      utf8ByteSize_append, size_fixed]
    omega
  · simp only [Option.toList_none, totalSize_nil, listSize_cons, listSize_nil]
    omega
  · have hcount := size_resultCount_le hf
    have hnames := (hm.locals.temporaries (by omega : _ + f.resultCount ≤ wordLimit) "result").1
    have hlength := length_temporaries m.locals "result" f.resultCount
    generalize (m.locals.temporaries "result" f.resultCount).1 = names at hnames hlength ⊢
    have hlist : listSize names ≤ f.resultCount * 29 := by
      rw [← hlength]
      refine listSize_le fun name h => ?_
      have := hnames name h
      simp only [size_fixed] at this
      omega
    have hcomma := size_commaList_le names
    simp only [Option.toList_some, totalSize_cons, totalSize_nil, utf8ByteSize_append, size_fixed]
    omega

omit hm hr hu in
theorem adds_returnEffect : m.returnEffect.Adds m 100 := by
  unfold returnEffect Effect.Adds Effect.size
  split
  · simp only [Option.toList_some, totalSize_cons, totalSize_nil, listSize_nil, size_fixed]
    omega
  · have htop := m.size_operand_le
    simp only [Option.toList_some, totalSize_cons, totalSize_nil, listSize_nil,
      utf8ByteSize_append, size_fixed]
    omega
  · have hcomma := size_commaList_le (m.operands (resultCount m.header.returnType.toList))
    have hall := m.listSize_operands_le (resultCount m.header.returnType.toList)
    simp only [Option.toList_some, totalSize_cons, totalSize_nil, listSize_nil,
      utf8ByteSize_append, size_fixed]
    omega

omit hm hr hu in
theorem adds_globalEffect {builtin : String} (hb : builtin.utf8ByteSize ≤ 17) :
    (m.globalEffect r builtin).Adds m (62 * r.size + 2 * n + 100) := by
  have hname := size_structOf_le (r := r)
  have htop := m.size_operand_le
  simp only [Effect.Adds, Effect.size, globalEffect, listSize_cons, listSize_nil,
    utf8ByteSize_append, Option.toList_none, totalSize_nil, size_fixed]
  omega

omit hm hr hu in
theorem size_branchComment_le (m : Machine) (text : String) :
    totalSize (m.branchComment text).toList ≤ text.utf8ByteSize + 3 := by
  unfold branchComment
  split
  · simp only [Option.toList_some, totalSize_cons, totalSize_nil, utf8ByteSize_append, size_fixed]
    omega
  · exact Nat.zero_le _

/-- **An instruction writes what it takes and a bounded number of bytes**, unless it unpacks a
vector. -/
theorem adds_effect (hop : r.opcode ≠ .vecUnpack) :
    (m.effect r).Adds m (62 * r.size + 2 * n + 100) := by
  have hstruct := size_structOf_le (r := r)
  have hfield := size_fieldOf_le (r := r)
  have htarget := size_targetOf_le (r := r)
  have h1 := m.size_operand_le
  have h2 := m.size_two_operands_le
  have h3 := m.size_three_operands_le
  cases h : r.opcode
  case vecUnpack => exact absurd h hop
  case call =>
    cases hf : callee? r with
    | some f =>
      rw [m.effect_call h hf]
      exact adds_callEffect hm hr hu hf
    | none =>
      rw [m.effect_unresolvedCall h hf]
      simp only [Effect.Adds, Effect.size, Option.toList_some, totalSize_cons, totalSize_nil,
        listSize_nil, utf8ByteSize_append, size_fixed]
      omega
  all_goals rw [effect, h]
  all_goals dsimp only
  case copyLoc | moveLoc | immBorrowLoc | mutBorrowLoc => exact adds_readEffect hm hr hu (by decide)
  case stLoc => exact adds_storeEffect hm hr hu
  case ret => exact adds_returnEffect.trans (by omega)
  case existsGlobal | moveFrom | immBorrowGlobal | mutBorrowGlobal =>
    exact adds_globalEffect (by decide)
  all_goals unfold Effect.Adds Effect.size
  all_goals simp only [listSize_cons, listSize_nil, Option.toList_none, Option.toList_some,
    totalSize_cons, totalSize_nil, utf8ByteSize_append, size_fixed]
  -- nothing is taken
  case nop | unknown | ldTrue | ldFalse | pack => omega
  case ldInt =>
    have :=
      size_orPlaceholder_le fun s (h : r.argument = some s) => size_of_part (isInfix_of_argument h)
    omega
  case ldConst =>
    have := size_constant_le (r := r)
    omega
  case branch =>
    have hjump := m.size_branchComment_le ("goto " ++ targetOf r)
    simp only [utf8ByteSize_append, size_fixed] at hjump
    omega
  -- any number of fragments
  case vecPack =>
    have := size_commaList_le (m.operands (m.elementCount r).count)
    have := m.listSize_operands_le (m.elementCount r).count
    omega
  -- one fragment
  case unpack | abort => omega
  case pop =>
    split
    · simp only [Option.toList_none, totalSize_nil]
      omega
    · simp only [Option.toList_some, totalSize_cons, totalSize_nil, utf8ByteSize_append, size_fixed]
      omega
  case freezeRef | readRef | not =>
    have := size_freeze_le (m.operand 0)
    have := size_dereferenced_le (m.operand 0)
    have := size_negated_le (m.operand 0)
    omega
  case cast ty =>
    have hty : ty.name.utf8ByteSize ≤ 4 := by cases ty <;> decide
    omega
  case brTrue =>
    have hguard :=
      m.size_branchComment_le ("if " ++ inParentheses (m.operand 0) ++ " goto " ++ targetOf r)
    have := size_inParentheses_le (m.operand 0)
    simp only [utf8ByteSize_append, size_fixed] at hguard
    omega
  case brFalse =>
    have hguard :=
      m.size_branchComment_le ("if " ++ negated (m.operand 0) ++ " goto " ++ targetOf r)
    have := size_negated_le (m.operand 0)
    simp only [utf8ByteSize_append, size_fixed] at hguard
    omega
  case immBorrowField | mutBorrowField | vecLen | vecPopBack =>
    have := size_unborrowed_le (m.operand 0)
    omega
  -- two fragments
  case binary op =>
    have hop : op.symbol.utf8ByteSize ≤ 2 := by cases op <;> decide
    omega
  case writeRef =>
    have := size_dereferenced_le (m.operand 0)
    omega
  case vecImmBorrow | vecMutBorrow | vecPushBack | moveTo =>
    have := size_unborrowed_le (m.operand 1)
    omega
  -- three fragments
  case vecSwap =>
    have := size_unborrowed_le (m.operand 2)
    omega

end Effects

/-! ## Unpacking -/

theorem vectorCount_lt (limit : Nat) (r : Instruction) : vectorCount limit r < wordLimit := by
  unfold vectorCount countOf?
  cases h : (r.remark.bind fun a => lastNumber? a.toList).or r.operandIndex with
  | none => exact (by decide : 0 < wordLimit)
  | some k =>
    have hk : k < wordLimit := by
      rcases Option.or_eq_some_iff.1 h with h | ⟨-, h⟩
      · obtain ⟨a, -, h⟩ := Option.bind_eq_some_iff.1 h
        obtain ⟨part, -, h⟩ := List.mem_filterMap.1 (List.mem_of_getLast? h)
        exact lt_of_readWord? h
      · exact Instruction.lt_of_operandIndex h
    exact Nat.lt_of_le_of_lt (Nat.min_le_right limit k) hk

theorem vectorCount_le (limit : Nat) (r : Instruction) : vectorCount limit r ≤ limit := by
  unfold vectorCount
  cases countOf? r with
  | none => exact Nat.zero_le limit
  | some n => exact Nat.min_le_left limit n

/-- The elements that an unpacking gives for a vector. -/
def elements (v : String) (count : Nat) : List String :=
  (List.range count).map fun i => v ++ "[" ++ toString i ++ "]"

theorem effect_vecUnpack (m : Machine) (hop : r.opcode = .vecUnpack) :
    (m.effect r).pops = 1 ∧ (m.effect r).statement = none ∧
      (m.effect r).pushes = elements (m.operand 0) (vectorCount m.options.maxVectorElements r) := by
  rw [effect, hop, ← count_elementCount]
  exact ⟨rfl, rfl, rfl⟩

theorem listSize_elements_le {v : String} {count : Nat} (hcount : count < wordLimit) :
    listSize (elements v count) ≤ count * (v.utf8ByteSize + 24) := by
  have h : listSize (elements v count) ≤ (elements v count).length * (v.utf8ByteSize + 24) :=
    listSize_le fun t ht => by
    obtain ⟨i, hi, rfl⟩ := List.mem_map.1 ht
    have := size_toString_le ((List.mem_range.1 hi).trans hcount)
    simp only [utf8ByteSize_append, size_fixed]
    omega
  rwa [elements, List.length_map, List.length_range] at h

/-! ## Steps and runs -/

/-- How many times over an instruction writes what it takes. -/
def growth (limit : Nat) (r : Instruction) : Nat :=
  if r.opcode = .vecUnpack then max 1 (vectorCount limit r) else 1

theorem one_le_growth (limit : Nat) (r : Instruction) : 1 ≤ growth limit r := by
  unfold growth
  split <;> omega

/-- What an instruction adds at most, with texts of at most `n` bytes. -/
def addedSize (n : Nat) (r : Instruction) : Nat := 62 * r.size + 2 * n + 100

section Steps

variable (hm : m.Sized n) (hr : r.size ≤ n) (hu : m.locals.supply.used.length + r.size < wordLimit)
include hm hr hu

/-- **One step**: what the machine holds grows by a bounded number of bytes, and then as many times
as a vector is unpacked into elements. -/
theorem size_step_le :
    (m.step r).size ≤ growth m.options.maxVectorElements r * (m.size + addedSize n r) := by
  have happly := m.size_apply (m.effect r)
  by_cases hop : r.opcode = .vecUnpack
  · obtain ⟨hpops, hstatement, hpushes⟩ := m.effect_vecUnpack hop
    have helements :=
      listSize_elements_le (v := m.operand 0) (vectorCount_lt m.options.maxVectorElements r)
    have htop := m.size_operand_le
    have htaken : listSize (m.stack.take 1) ≤ m.size := by
      have hstack := congrArg listSize (List.take_append_drop 1 m.stack)
      rw [listSize_append] at hstack
      unfold size
      omega
    rw [hpops, Effect.size, hstatement, hpushes, Option.toList_none, totalSize_nil,
      Nat.zero_add] at happly
    rw [growth, if_pos hop]
    generalize vectorCount m.options.maxVectorElements r = count at happly helements ⊢
    have hgrow : count * ((m.operand 0).utf8ByteSize + 24) ≤
        max 1 count * (listSize (m.stack.take 1) + 25) :=
      Nat.mul_le_mul (Nat.le_max_right 1 count) (by omega)
    have hrest : m.size - listSize (m.stack.take 1) ≤
        max 1 count * (m.size - listSize (m.stack.take 1)) :=
      Nat.le_mul_of_pos_left _ (Nat.lt_of_lt_of_le Nat.zero_lt_one (Nat.le_max_left 1 count))
    calc (m.step r).size
        ≤ max 1 count * (m.size - listSize (m.stack.take 1)) +
          max 1 count * (listSize (m.stack.take 1) + 25) := by
          show (m.apply (m.effect r)).size ≤ _
          omega
      _ = max 1 count * (m.size + 25) := by
          rw [← Nat.mul_add]
          congr 1
          omega
      _ ≤ max 1 count * (m.size + addedSize n r) :=
          Nat.mul_le_mul_left _ (by unfold addedSize; omega)
  · have hadds : (m.effect r).size ≤ listSize (m.stack.take (m.effect r).pops) + addedSize n r :=
      adds_effect hm hr hu hop
    rw [growth, if_neg hop, Nat.one_mul]
    show (m.apply (m.effect r)).size ≤ _
    omega

theorem Sized.step : (m.step r).Sized n ∧
    (m.step r).locals.supply.used.length ≤ m.locals.supply.used.length + (r.size + 1) :=
  ⟨⟨(hm.effect hr hu).1, hm.declared⟩, (hm.effect hr hu).2⟩

end Steps

/-- What a machine may hold after some instructions: all growth at once, applied to all that is
added. -/
def potential (n : Nat) (m : Machine) (rs : List Instruction) : Nat :=
  (rs.map (growth m.options.maxVectorElements)).prod * (m.size + (rs.map (addedSize n)).sum)

theorem size_le_potential (n : Nat) (m : Machine) (rs : List Instruction) :
    m.size ≤ m.potential n rs := by
  have hone : 1 ≤ (rs.map (growth m.options.maxVectorElements)).prod :=
    List.one_le_prod_of_one_le fun g hg => by
      obtain ⟨r, -, rfl⟩ := List.mem_map.1 hg
      exact one_le_growth _ r
  exact (Nat.le_add_right _ _).trans (Nat.le_mul_of_pos_left _ hone)

/-- One step does not raise the potential. -/
theorem potential_step_le (hm : m.Sized n) (hr : r.size ≤ n)
    (hu : m.locals.supply.used.length + r.size < wordLimit) (rs : List Instruction) :
    (m.step r).potential n rs ≤ m.potential n (r :: rs) := by
  have hstep := size_step_le hm hr hu
  unfold potential
  rw [step_options, List.map_cons, List.prod_cons, List.map_cons, List.sum_cons]
  generalize hg : growth m.options.maxVectorElements r = g at hstep
  generalize (rs.map (growth m.options.maxVectorElements)).prod = p
  generalize (rs.map (addedSize n)).sum = s
  have hone : 1 ≤ g := hg ▸ one_le_growth _ r
  calc p * ((m.step r).size + s)
      ≤ p * (g * (m.size + addedSize n r) + g * s) :=
        Nat.mul_le_mul_left p (Nat.add_le_add hstep (Nat.le_mul_of_pos_left s hone))
    _ = g * p * (m.size + (addedSize n r + s)) := by ring

/-- **A run**: at no point does the machine hold more than the potential at the start. -/
theorem size_foldl_step_le (hm : m.Sized n) {before rs : List Instruction} (hbefore : before <+: rs)
    (hrs : ∀ r ∈ rs, r.size ≤ n)
    (hu : m.locals.supply.used.length + (rs.map fun r => r.size + 1).sum < wordLimit) :
    (before.foldl step m).size ≤ m.potential n rs := by
  induction before generalizing m rs with
  | nil => exact m.size_le_potential n rs
  | cons r before ih =>
    obtain ⟨after, rfl⟩ := hbefore
    rw [List.cons_append] at hrs hu ⊢
    rw [List.map_cons, List.sum_cons] at hu
    have hr := hrs r List.mem_cons_self
    obtain ⟨hsized, hused⟩ := hm.step hr (by omega)
    have hrest :=
      ih hsized (List.prefix_append before after)
        (fun q hq => hrs q (List.mem_cons_of_mem r hq)) (by omega)
    exact hrest.trans (potential_step_le hm hr (by omega) (before ++ after))

/-! ## Whole functions -/

section Start

variable {h : FunctionHeader}

theorem sized_start (options : MachineOptions) (hh : ∀ t ∈ h.texts, t.utf8ByteSize ≤ n)
    (hp : h.parameters.length ≤ wordLimit) :
    (start h options).Sized n ∧ (start h options).locals.supply.used.length ≤
      h.parameters.length := by
  have hparams : ∀ p ∈ h.parameters, p.name.utf8ByteSize ≤ n ∧ p.paramType.utf8ByteSize ≤ n := by
    intro p hp
    have hmem : ∀ t ∈ [p.name, p.paramType], t ∈ h.texts := fun t ht =>
      List.mem_append_right _ (List.mem_flatMap.2 ⟨p, hp, ht⟩)
    exact ⟨hh _ (hmem _ (by simp)), hh _ (hmem _ (by simp))⟩
  have hlength : (h.parameters.mapIdx fun i p => (Slot.arg i, parameterBase h i p)).length =
      h.parameters.length := List.length_mapIdx
  have hused : ({} : LocalNames).supply.used.length = 0 := rfl
  have hbases : ∀ b ∈ h.parameters.mapIdx fun i p => (Slot.arg i, parameterBase h i p),
      b.2.utf8ByteSize + 26 ≤ 2 * n + 49 := by
    intro b hb
    obtain ⟨i, hi, rfl⟩ := List.mem_mapIdx.1 hb
    have hbase := size_parameterBase_le h i h.parameters[i]
    have hpart := hparams _ (List.getElem_mem hi)
    dsimp only
    omega
  obtain ⟨hsized, hfew⟩ := (LocalNames.sized_empty (2 * n + 49)).foldl_bind (by omega) hbases
  refine ⟨⟨hsized, fun p hp => absurd hp List.not_mem_nil⟩, ?_⟩
  show (parameterTable h).supply.used.length ≤ _
  rw [parameterTable]
  omega

/-- Declared slots have few names and numbers of few digits. -/
theorem Sized.declare (hm : m.Sized n) {d : SlotDecl} (hd : d.slotType.utf8ByteSize ≤ n)
    (hused : m.locals.supply.used.length < wordLimit) (hdeclared : m.declared.length < wordLimit) :
    (m.declare d).Sized n ∧
      (m.declare d).locals.supply.used.length ≤ m.locals.supply.used.length + 1 ∧
      (m.declare d).declared.length ≤ m.declared.length + 1 := by
  have hname : (Naming.nameFor d.slotType.toList {}).utf8ByteSize + 26 ≤ 2 * n + 49 := by
    have := size_nameFor_le d.slotType.toList {}
    rw [utf8Len_toList] at this
    omega
  have hindex : (localNumber? d.name.toList).getD m.declared.length < wordLimit := by
    cases hn : localNumber? d.name.toList with
    | none => exact hdeclared
    | some k =>
      obtain ⟨ds, -, hk⟩ := Option.bind_eq_some_iff.1 hn
      exact lt_of_readDigits? hk
  obtain ⟨-, hsized, hone⟩ :=
    hm.locals.bind hused (.loc ((localNumber? d.name.toList).getD m.declared.length)) hname
  refine ⟨⟨hsized, fun p hp => ?_⟩, hone, Nat.succ_le_succ (List.length_filter_le _ _)⟩
  rcases List.mem_cons.1 hp with rfl | hp
  · exact hindex
  · exact hm.declared p (List.mem_filter.1 hp).1

theorem Sized.foldl_declare (hm : m.Sized n) {ds : List SlotDecl}
    (hds : ∀ d ∈ ds, d.slotType.utf8ByteSize ≤ n)
    (hused : m.locals.supply.used.length + ds.length < wordLimit)
    (hdeclared : m.declared.length + ds.length < wordLimit) :
    (ds.foldl Machine.declare m).Sized n ∧
      (ds.foldl Machine.declare m).locals.supply.used.length ≤
        m.locals.supply.used.length + ds.length := by
  induction ds generalizing m with
  | nil => exact ⟨hm, Nat.le_refl _⟩
  | cons d ds ih =>
    rw [List.length_cons] at hused hdeclared ⊢
    obtain ⟨hone, hu, hd⟩ := hm.declare (hds d List.mem_cons_self) (by omega) (by omega)
    obtain ⟨hall, hlength⟩ :=
      ih hone (fun e he => hds e (List.mem_cons_of_mem d he)) (by omega) (by omega)
    exact ⟨hall, by rw [List.foldl_cons]; omega⟩

end Start

end Machine

/-! ## Lines -/

theorem size_le_totalSize {t : String} {ts : List String} (h : t ∈ ts) :
    t.utf8ByteSize ≤ totalSize ts :=
  List.single_le_sum (fun _ _ => Nat.zero_le _) _ (List.mem_map.2 ⟨t, h, rfl⟩)

namespace Listing

/-- An instruction has more bytes in its line than it keeps. -/
theorem size_lt_of_instruction? {l : String} {r : Instruction}
    (h : instruction? l.toList = some r) :
    r.size + 1 ≤ l.utf8ByteSize := by
  obtain ⟨s, hs, hparts⟩ := exists_of_instruction? h
  have hcolon : (':' : Char).utf8Size = 1 := rfl
  have hline := utf8Len_le_of_infix hs.isInfix
  rw [utf8Len_toList, utf8Len_cons] at hline
  have hsize : r.size ≤ utf8Len s := Instruction.size_le fun t ht => by
    have := utf8Len_le_of_infix (hparts t ht)
    rwa [utf8Len_toList] at this
  omega

theorem size_pos_of_slotDecl? {l : String} {d : SlotDecl} (h : slotDecl? l.toList = some d) :
    1 ≤ l.utf8ByteSize := by
  rw [Nat.one_le_iff_ne_zero]
  intro hempty
  have hnone : slotDecl? "".toList = none := by decide
  rw [String.utf8ByteSize_eq_zero_iff.1 hempty, hnone] at h
  exact absurd h (by simp)

/-- The lines of a body have room for its declarations, its instructions and what these keep. -/
theorem size_body_le (ls : List String) :
    (body ls).locals.length + ((body ls).instructions.map fun r => r.size + 1).sum ≤
      totalSize ls := by
  induction ls with
  | nil => exact Nat.le_refl 0
  | cons l ls ih =>
    rw [totalSize_cons]
    have hbody : body (l :: ls) =
        .ofLines (bodyLine l.toList :: ls.map fun l => bodyLine l.toList) := rfl
    cases hl : bodyLine l.toList with
    | label | other =>
      rw [hl] at hbody
      rw [hbody]
      exact ih.trans (Nat.le_add_left _ _)
    | declaration d =>
      have hpos := size_pos_of_slotDecl? (slotDecl?_of_bodyLine hl)
      rw [hl] at hbody
      rw [hbody]
      show ((body ls).locals.length + 1) + ((body ls).instructions.map fun r => r.size + 1).sum ≤ _
      omega
    | instruction r =>
      have hlt := size_lt_of_instruction? (instruction?_of_bodyLine hl)
      rw [hl] at hbody
      rw [hbody]
      show (body ls).locals.length +
          ((r.size + 1) + ((body ls).instructions.map fun r => r.size + 1).sum) ≤ _
      omega

end Listing

namespace Machine

/-- Unpackings multiply, and nothing else does. -/
theorem prod_growth_le (limit : Nat) (rs : List Instruction) :
    (rs.map (growth limit)).prod ≤ (limit + 1) ^ rs.countP (·.opcode = .vecUnpack) := by
  induction rs with
  | nil => exact Nat.le_refl 1
  | cons r rs ih =>
    rw [List.map_cons, List.prod_cons, List.countP_cons]
    by_cases hop : r.opcode = .vecUnpack
    · have hcount := vectorCount_le limit r
      have hgrowth : growth limit r ≤ limit + 1 := by
        rw [growth, if_pos hop]
        omega
      rw [if_pos (decide_eq_true hop), Nat.pow_succ, Nat.mul_comm]
      exact Nat.mul_le_mul ih hgrowth
    · rw [if_neg (by simpa using hop), growth, if_neg hop, Nat.one_mul]
      exact ih

theorem sum_addedSize (n : Nat) (rs : List Instruction) :
    (rs.map (addedSize n)).sum =
      62 * (rs.map Instruction.size).sum + rs.length * (2 * n + 100) := by
  induction rs with
  | nil => simp
  | cons r rs ih =>
    rw [List.map_cons, List.sum_cons, ih, List.map_cons, List.sum_cons, List.length_cons, addedSize]
    ring

/-- What the instructions of a listing with `l` bytes add, if there are any. -/
theorem added_le {s k l : Nat} (hk : 0 < k) (h : s + k ≤ l) :
    62 * s + k * (2 * l + 100) ≤ 16 * (l + 1) * (k + 3) := by
  obtain ⟨j, rfl⟩ := Nat.exists_eq_add_of_lt hk
  have h1 : j * (j + 1) ≤ j * l := Nat.mul_le_mul_left j (by omega)
  have h2 : j ≤ j * j + 1 := by nlinarith
  nlinarith

/-- The run over a body that has been read from at most `l` bytes, at each point. -/
theorem size_run_body_le {h : FunctionHeader} {b : Body} {l : Nat} (options : MachineOptions)
    (hh : ∀ t ∈ h.texts, t.utf8ByteSize ≤ l) (hds : ∀ d ∈ b.locals, d.slotType.utf8ByteSize ≤ l)
    (hroom : b.locals.length + (b.instructions.map fun r => r.size + 1).sum ≤ l)
    (hl : l + h.parameters.length < wordLimit) {before : List Instruction}
    (hbefore : before <+: b.instructions) :
    (before.foldl step (b.locals.foldl declare (start h options))).size ≤
      16 * (l + 1) * (options.maxVectorElements + 1) ^
          b.instructions.countP (·.opcode = .vecUnpack) *
        (b.instructions.length + 3) := by
  obtain ⟨hstart, hused⟩ := sized_start (h := h) options hh (by omega)
  obtain ⟨hdeclared, hfew⟩ := hstart.foldl_declare hds (by omega) (by show 0 + _ < _; omega)
  have hrs : ∀ r ∈ b.instructions, r.size ≤ l := fun r hr => by
    have : r.size + 1 ≤ (b.instructions.map fun r => r.size + 1).sum :=
      List.single_le_sum (fun _ _ => Nat.zero_le _) _ (List.mem_map.2 ⟨r, hr, rfl⟩)
    omega
  obtain ⟨t, declared, hd⟩ := foldl_declare_eq b.locals (start h options)
  have hempty : (b.locals.foldl declare (start h options)).size = 0 := by rw [hd]; rfl
  have hoptions : (b.locals.foldl declare (start h options)).options = options := by rw [hd]; rfl
  have hsum : (b.instructions.map fun r => r.size + 1).sum =
      (b.instructions.map Instruction.size).sum + b.instructions.length := by
    rw [List.sum_map_add, List.map_const', List.sum_replicate, smul_eq_mul, Nat.mul_one]
  have hadded : 62 * (b.instructions.map Instruction.size).sum +
      b.instructions.length * (2 * l + 100) ≤ 16 * (l + 1) * (b.instructions.length + 3) := by
    rcases Nat.eq_zero_or_pos b.instructions.length with hk | hk
    · rw [List.length_eq_zero_iff.1 hk]
      simp
    · exact added_le hk (by omega)
  calc (before.foldl step (b.locals.foldl declare (start h options))).size
      ≤ (b.locals.foldl declare (start h options)).potential l b.instructions :=
        size_foldl_step_le hdeclared hbefore hrs (by omega)
    _ = (b.instructions.map (growth options.maxVectorElements)).prod *
          (62 * (b.instructions.map Instruction.size).sum +
            b.instructions.length * (2 * l + 100)) := by
        rw [potential, hempty, hoptions, Nat.zero_add, sum_addedSize]
    _ ≤ (options.maxVectorElements + 1) ^ b.instructions.countP (·.opcode = .vecUnpack) *
          (16 * (l + 1) * (b.instructions.length + 3)) := Nat.mul_le_mul (prod_growth_le _ _) hadded
    _ = _ := by ring

/-- At each point of the run over a function, the machine holds a bounded number of bytes. -/
theorem size_before_le (h : FunctionHeader) (lines : List String) (options : MachineOptions)
    (hsize : totalSize h.texts + totalSize lines + h.parameters.length < wordLimit)
    {before : List Instruction} (hbefore : before <+: (Listing.body lines).instructions) :
    (before.foldl step ((Listing.body lines).locals.foldl declare (start h options))).size ≤
      16 * (totalSize h.texts + totalSize lines + 1) *
        (options.maxVectorElements + 1) ^
          (Listing.body lines).instructions.countP (·.opcode = .vecUnpack) *
        ((Listing.body lines).instructions.length + 3) := by
  have hh : ∀ t ∈ h.texts, t.utf8ByteSize ≤ totalSize h.texts + totalSize lines := fun t ht =>
    (size_le_totalSize ht).trans (Nat.le_add_right _ _)
  have hds : ∀ d ∈ (Listing.body lines).locals, d.slotType.utf8ByteSize ≤
      totalSize h.texts + totalSize lines := by
    intro d hd
    obtain ⟨l, hl, hread⟩ := Listing.exists_of_mem_locals hd
    have hpart := utf8Len_le_of_infix (Listing.isInfix_of_slotDecl? hread)
    rw [utf8Len_toList, utf8Len_toList] at hpart
    exact hpart.trans ((size_le_totalSize hl).trans (Nat.le_add_left _ _))
  exact size_run_body_le options hh hds
    ((Listing.size_body_le lines).trans (Nat.le_add_left _ _)) hsize hbefore

/-- **The size of what a function comes to** is bounded by the size of its listing, the number of
its instructions, and the limit on element counts to the power of the number of unpackings. -/
theorem size_run_le (h : FunctionHeader) (lines : List String) (options : MachineOptions)
    (hsize : totalSize h.texts + totalSize lines + h.parameters.length < wordLimit) :
    totalSize (interpret h (Listing.body lines) options).function.statements +
        totalSize ((start h options).run (Listing.body lines)).stack ≤
      16 * (totalSize h.texts + totalSize lines + 1) *
        (options.maxVectorElements + 1) ^
          (Listing.body lines).instructions.countP (·.opcode = .vecUnpack) *
        ((Listing.body lines).instructions.length + 3) := by
  refine Nat.le_trans ?_ (size_before_le h lines options hsize List.prefix_rfl)
  show totalSize ((start h options).run (Listing.body lines)).emitted.reverse + _ ≤
    totalSize ((start h options).run (Listing.body lines)).emitted +
      listSize ((start h options).run (Listing.body lines)).stack
  rw [totalSize_reverse]
  exact Nat.add_le_add_left (totalSize_le_listSize _) _

/-- A number is unpacked into ten elements and packed again, four times over. -/
def repackLines : List String :=
  "0:LdU128(340282366920938463463374607431768211455)" ::
    (List.replicate 4 ["0:VecUnpack[10]", "0:VecPack[10]"]).flatten ++ ["0:Pop"]

/-- Half a million bytes are written, and four unpackings allow for five hundred million. -/
theorem size_run_le_repack :
    totalSize ({ name := "f" } : FunctionHeader).texts + totalSize repackLines +
        ({ name := "f" } : FunctionHeader).parameters.length < wordLimit ∧
      totalSize (interpret { name := "f" } (Listing.body repackLines)
          { maxVectorElements := 10 }).function.statements +
        totalSize ((start { name := "f" } { maxVectorElements := 10 }).run
          (Listing.body repackLines)).stack ≤
        16 * (167 + 1) * (10 + 1) ^ 4 * (10 + 3) := by
  have hlines : totalSize ({ name := "f" } : FunctionHeader).texts +
      totalSize repackLines = 167 := by decide +kernel
  have hroom : totalSize ({ name := "f" } : FunctionHeader).texts + totalSize repackLines +
      ({ name := "f" } : FunctionHeader).parameters.length < wordLimit := by decide +kernel
  have hunpacks : (Listing.body repackLines).instructions.countP (·.opcode = .vecUnpack) = 4 := by
    decide +kernel
  have hlength : (Listing.body repackLines).instructions.length = 10 := by decide +kernel
  have hbound := size_run_le { name := "f" } repackLines { maxVectorElements := 10 } hroom
  rw [hlines, hunpacks, hlength] at hbound
  exact ⟨hroom, hbound⟩

end Machine

end PseudoMove
