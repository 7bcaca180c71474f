import PseudoMove.Decompilation
import PseudoMove.Proofs.BracketPartner
import PseudoMove.Proofs.FunctionParts
import PseudoMove.Proofs.OutputSize

/-!
# Numbers that do not fit

Decompilation counts in machine words and cuts texts at byte offsets.  An offset found is that of a
bracket, and so lies between two characters (`Bracket.partner?_eq_some`).  An instruction asks for
at most as many fragments as the limit on vectors allows or its line can name
(`pops_stackEffect_le`), so what a run counts as unresolved is bounded by the text and the limit
(`unresolved_foldl_le`).  A depth of parentheses is bounded by the fragment it is counted in
(`isCountable_of_size_lt`), and indentation by the settings.

* `Decompilation.ofText?_ne_overflow` — nothing overflows for valid settings whose limit is not
  huge;
* `Decompilation.ofText?_overflow` — two instructions overflow the count under the largest limit.
-/

namespace PseudoMove

open Text Fragment PseudoMove.Bracket

/-! ## Counts of operands -/

/-- An instruction asks for no more fragments than the limit on vectors allows or its line and the
return type can name, or else for three. -/
theorem pops_stackEffect_le (h : FunctionHeader) (limit : Nat) (r : Instruction) {n : Nat}
    (hret : h.returnType.toList.length ≤ n) (hrem : ∀ a ∈ r.remark, a.toList.length ≤ n) :
    (stackEffect h limit r).pops ≤ limit + n + 3 := by
  have hvector : vectorCount limit r ≤ limit := by
    unfold vectorCount
    cases Machine.countOf? r with
    | none => exact Nat.zero_le _
    | some k => exact Nat.min_le_left _ _
  unfold stackEffect
  cases hop : r.opcode with
  | call =>
    cases hf : callee? r with
    | none => exact Nat.zero_le _
    | some f =>
      obtain ⟨a, ha, hread⟩ := Option.bind_eq_some_iff.1 hf
      have h1 := (Callee.of_read? hread).1
      have h2 := hrem a ha
      show f.arity ≤ limit + n + 3
      omega
  | ret =>
    have := TypeText.resultCount_le h.returnType.toList
    dsimp only
    omega
  | vecPack =>
    dsimp only
    omega
  | _ =>
    dsimp only
    omega

/-- What a run counts as unresolved grows by what an instruction asks for, and one more for its
line. -/
theorem Counters.unresolved_foldl_le (h : FunctionHeader) (limit : Nat) {n : Nat}
    {rs : List Instruction} (hrs : ∀ r ∈ rs, (stackEffect h limit r).pops ≤ n) (c : Counters) :
    (rs.foldl (Counters.step h limit) c).unresolved ≤ c.unresolved + rs.length * (n + 1) := by
  induction rs generalizing c with
  | nil => simp
  | cons r rs ih =>
    have hmiss : operandMisses limit r ≤ 1 := by
      unfold operandMisses
      split <;> omega
    have hstep : (c.step h limit r).unresolved ≤ c.unresolved + (n + 1) := by
      have := hrs r List.mem_cons_self
      show c.unresolved +
        ((stackEffect h limit r).pops - min c.depth (stackEffect h limit r).pops) +
        operandMisses limit r ≤ _
      omega
    have hrest := ih (fun q hq => hrs q (List.mem_cons_of_mem r hq)) (c.step h limit r)
    rw [List.foldl_cons, List.length_cons, Nat.succ_mul]
    omega

/-! ## Depths of parentheses -/

namespace Fragment

/-- A character adds at most one to the depth, so that a short text cannot bring it to the limit. -/
theorem foldl_depthAfter_lt {depth : Nat} {s : List Char} (h : depth + s.length < depthLimit) :
    s.foldl depthAfter depth < depthLimit := by
  induction s generalizing depth with
  | nil => exact h
  | cons c s ih =>
    rw [List.length_cons] at h
    have hstep : depthAfter depth c ≤ depth + 1 := by
      unfold depthAfter
      split_ifs <;> omega
    exact ih (by omega)

/-- Behind its first parenthesis, a fragment that ends with one is counted. -/
theorem all_dropPrefix_iff (f : String) :
    ((f.dropPrefix? '(').all fun rest =>
      !rest.endsWith ')' || decide (rest.foldl depthAfter 1 < depthLimit)) = true ↔
    ∀ s : List Char, f.toList = '(' :: s → s.getLast? = some ')' →
      s.foldl depthAfter 1 < depthLimit := by
  cases hrest : f.dropPrefix? '(' with
  | none =>
    rw [String.dropPrefix?_eq_dropPrefix?_toSlice, String.Slice.dropPrefix?_eq_none_iff,
      String.Slice.startsWith_char_eq_head?, String.copy_toSlice, beq_eq_false_iff_ne] at hrest
    refine iff_of_true rfl fun s hs => absurd ?_ hrest
    rw [hs, List.head?_cons]
  | some rest =>
    obtain rfl := String.eq_append_of_dropPrefix?_char_eq_some hrest
    rw [String.toList_append, String.toList_singleton, List.singleton_append, Option.all_some,
      Bool.or_eq_true, Bool.not_eq_true', decide_eq_true_iff,
      String.Slice.endsWith_char_eq_getLast?,
      String.Slice.foldl_eq_foldl_toList, beq_eq_false_iff_ne, ← imp_iff_not_or]
    constructor
    · intro h s hs hlast
      cases hs
      exact h hlast
    · exact fun h hlast => h _ rfl hlast

/-- The parentheses of a fragment can be counted if those behind the first one can, or if there is
not one at each end. That small fragments are not gone through changes nothing. -/
theorem isCountable_iff (f : String) :
    isCountable f = true ↔ ∀ s : List Char, f.toList = '(' :: s → s.getLast? = some ')' →
      s.foldl depthAfter 1 < depthLimit := by
  rw [isCountable, Bool.or_eq_true, decide_eq_true_iff, all_dropPrefix_iff, or_iff_right_iff_imp]
  intro hsmall s hs _
  have hlength := length_toList_le f
  rw [hs, List.length_cons] at hlength
  exact foldl_depthAfter_lt (by omega)

/-- The parentheses of a fragment can be counted as long as the fragment has fewer
bytes than the limit. -/
theorem isCountable_of_size_lt {f : String} (h : f.utf8ByteSize < depthLimit) :
    isCountable f = true := by
  unfold isCountable
  rw [decide_eq_true h, Bool.true_or]

/-! ### Parentheses that are not closed -/

theorem foldl_depthAfter_of_ge {depth : Nat} (h : depthLimit ≤ depth) (s : List Char) :
    s.foldl depthAfter depth = depth := by
  induction s with
  | nil => rfl
  | cons c s ih => rw [List.foldl_cons, depthAfter, if_pos (.inr h), ih]

/-- Where nothing closes, every opening parenthesis counts until the limit is reached. -/
theorem le_foldl_depthAfter {depth : Nat} {s : List Char} (hdepth : 0 < depth) (hs : ')' ∉ s) :
    min depthLimit (depth + s.count '(') ≤ s.foldl depthAfter depth := by
  induction s generalizing depth with
  | nil => exact Nat.min_le_right _ _
  | cons c s ih =>
    obtain ⟨hc, hs⟩ := not_or.1 fun h => hs (List.mem_cons.2 h)
    rw [List.foldl_cons]
    rcases le_or_gt depthLimit depth with hfull | hroom
    · have hstep : depthAfter depth c = depth := if_pos (.inr hfull)
      rw [hstep, foldl_depthAfter_of_ge hfull]
      omega
    · have hclose : ¬ c = ')' := fun h => hc h.symm
      rw [depthAfter, if_neg (by omega), if_neg hclose]
      by_cases hopen : c = '('
      · have hrest := ih (show 0 < depth + 1 by omega) hs
        rw [if_pos hopen, hopen, List.count_cons_self]
        omega
      · have hrest := ih hdepth hs
        rw [if_neg hopen, List.count_cons_of_ne hopen]
        exact hrest

/-- A fragment between parentheses cannot be counted if it opens too many before it closes one. -/
theorem isCountable_eq_false {f : String} {s t : List Char} (hf : f.toList = '(' :: (s ++ t))
    (hlast : (s ++ t).getLast? = some ')') (hs : ')' ∉ s) (hcount : depthLimit ≤ 1 + s.count '(') :
    isCountable f = false := by
  rw [Bool.eq_false_iff, Ne, isCountable_iff]
  intro h
  have hlt := h (s ++ t) hf hlast
  have hge := le_foldl_depthAfter Nat.one_pos hs
  rw [List.foldl_append, foldl_depthAfter_of_ge (by omega)] at hlt
  omega

end Fragment

namespace Machine

/-- All fragments on the stack have fewer than `n` bytes. -/
def IsBelow (n : Nat) (m : Machine) : Prop := ∀ f ∈ m.stack, f.utf8ByteSize < n

instance (n : Nat) (m : Machine) : Decidable (m.IsBelow n) :=
  inferInstanceAs (Decidable (∀ f ∈ m.stack, f.utf8ByteSize < n))

/-- All fragments have fewer than `n` bytes throughout a run. -/
def StaysBelow (n : Nat) (m : Machine) (rs : List Instruction) : Prop :=
  ∀ before ∈ rs.inits, (before.foldl step m).IsBelow n

instance (n : Nat) (m : Machine) (rs : List Instruction) : Decidable (m.StaysBelow n rs) :=
  inferInstanceAs (Decidable (∀ before ∈ rs.inits, (before.foldl step m).IsBelow n))

theorem IsBelow.countable {m : Machine} (hm : m.IsBelow depthLimit) {r : Instruction} {f : String}
    (hf : m.counted? r = some f) : isCountable f = true := by
  have htop : isCountable (m.operand 0) = true := by
    unfold operand
    cases hs : m.stack[0]? with
    | none => decide
    | some g => exact isCountable_of_size_lt (hm g (List.mem_of_getElem? hs))
  unfold counted? at hf
  split at hf
  · rw [Option.ite_none_right_eq_some] at hf
    exact Option.some.inj hf.2 ▸ htop
  · rw [Option.ite_none_right_eq_some] at hf
    exact Option.some.inj hf.2 ▸ htop
  · exact Option.some.inj hf ▸ htop
  · simp at hf

theorem StaysBelow.countsAll {m : Machine} {rs : List Instruction}
    (h : m.StaysBelow depthLimit rs) :
    m.countsAll rs = true := by
  induction rs generalizing m with
  | nil => rfl
  | cons r rs ih =>
    have hnow : m.IsBelow depthLimit := h [] (by simp)
    have hlater : (m.step r).StaysBelow depthLimit rs := by
      intro before hb
      exact h (r :: before) (by simpa using hb)
    rw [Machine.countsAll, ih hlater, Bool.and_true, Option.all_eq_true]
    exact fun f hf => hnow.countable hf

end Machine

/-! ## Functions -/

namespace FunctionRun

variable {c : Config} {text : String} {f : FunctionListing}

/-- The product bounds what a function of the text can ask for: it has fewer instructions than the
text has bytes, and each asks for at most as many fragments as the other factor says. -/
theorem unresolvedOperands_lt (hf : f ∈ (Listing.read text).functions) (hsize :
      text.utf8ByteSize * (c.maxInstructionsPerFunction + text.utf8ByteSize + 4) < wordLimit) :
    (interpret f.toFunctionHeader (Listing.body f.bodyLines)
      (machineOptions c)).unresolvedOperands < wordLimit := by
  have hchars := length_toList_le text
  have hret : f.returnType.toList.length ≤ text.utf8ByteSize :=
    (Listing.isInfix_returnType_of_mem hf).length_le.trans hchars
  have hrem : ∀ r ∈ (Listing.body f.bodyLines).instructions, ∀ a ∈ r.remark, a.toList.length ≤
      text.utf8ByteSize := by
    intro r hr a ha
    obtain ⟨l, hl, hread⟩ := Listing.exists_of_mem_instructions hr
    have hpart : a.toList <:+: l.toList :=
      Listing.isInfix_of_instruction? hread a (List.mem_append_left _ (Option.mem_toList.2 ha))
    exact (hpart.trans (Listing.isInfix_of_mem_bodyLines hf hl)).length_le.trans hchars
  have hcount : (Listing.body f.bodyLines).instructions.length ≤ text.utf8ByteSize := by
    have hlines : (Listing.body f.bodyLines).instructions.length ≤ f.bodyLines.length := by
      refine (List.length_filterMap_le _ _).trans ?_
      rw [List.length_map]
    have := Listing.length_bodyLines_lt hf
    omega
  have hbound :=
    Counters.unresolved_foldl_le f.toFunctionHeader c.maxInstructionsPerFunction (fun r hr =>
      pops_stackEffect_le f.toFunctionHeader c.maxInstructionsPerFunction r hret (hrem r hr)) {}
  rw [(Machine.counters_run f.toFunctionHeader (Listing.body f.bodyLines) (machineOptions c)).1]
  refine Nat.lt_of_le_of_lt (hbound.trans ?_) hsize
  rw [Nat.zero_add]
  exact Nat.mul_le_mul_right _ hcount

theorem ofListing_ne_overflow (hf : f ∈ (Listing.read text).functions)
    (hsize : text.utf8ByteSize * (c.maxInstructionsPerFunction + text.utf8ByteSize + 4) < wordLimit)
    (hbelow : (loaded c f).StaysBelow depthLimit (Listing.body f.bodyLines).instructions)
    (what : Overflow) :
    ofListing c f ≠ .error (.overflow what) := by
  unfold ofListing
  dsimp only
  split
  · simp
  · rw [hbelow.countsAll, if_neg (by decide), if_pos (unresolvedOperands_lt hf hsize)]
    simp

end FunctionRun

/-! ## Listings -/

/-- What goes wrong with a list goes wrong with one of its elements. -/
theorem exists_of_mapM_error {α β ε : Type} {g : α → Except ε β} {xs : List α} {e : ε}
    (h : xs.mapM g = .error e) : ∃ x ∈ xs, g x = .error e := by
  induction xs with
  | nil => simp [pure, Except.pure] at h
  | cons x xs ih =>
    rw [List.mapM_cons] at h
    cases hx : g x with
    | error e' =>
      rw [hx] at h
      exact ⟨x, List.mem_cons_self, by rw [hx, ← Except.error.inj h]⟩
    | ok y =>
      cases hxs : xs.mapM g with
      | error e' =>
        rw [hx, hxs] at h
        obtain ⟨z, hz, hgz⟩ := ih (by rw [hxs, ← Except.error.inj h])
        exact ⟨z, List.mem_cons_of_mem x hz, hgz⟩
      | ok ys =>
        rw [hx, hxs] at h
        simp [bind, Except.bind, pure, Except.pure] at h

theorem Config.indentSize_le {c : Config} (h : c.validate = .ok ()) :
    c.indentSize ≤ maxIndentSize := by
  unfold validate fault? at h
  split at h
  · simp at h
  · next hfault =>
    by_contra hlt
    rw [if_pos (by omega)] at hfault
    simp at hfault

theorem Decompilation.canIndent_of_le {c : Config} (h : c.indentSize ≤ Config.maxIndentSize)
    (ls : List SourceLine) :
    canIndent c ls = true := by
  have hle : c.indentSize ≤ maxIndentation := h.trans (by decide)
  rw [canIndent, decide_eq_true hle, Bool.true_or]

/-- **Nothing overflows under valid settings** unless the text times the limit on
instructions is huge: as long as no fragment reaches the size at which its parentheses cannot
be counted, decompilation gives a module or fails for a reason of its own, and all offsets
found are those of brackets. -/
theorem Decompilation.ofText?_ne_overflow {c : Config} {text : String} (hc : c.validate = .ok ())
    (hsize : text.utf8ByteSize * (c.maxInstructionsPerFunction + text.utf8ByteSize + 4) < wordLimit)
    (hbelow : ∀ f ∈ (Listing.read text).functions,
      (FunctionRun.loaded c f).StaysBelow depthLimit (Listing.body f.bodyLines).instructions) :
    (∀ what, ofText? c text ≠ .error (.overflow what)) ∧
    ∀ s index offset, Bracket.partner? s index = some offset →
      ∃ before bra inside ket after, s = before ++ bra :: inside ++ ket :: after ∧
        Bracket.isOpening bra = true ∧ Bracket.isClosing ket = true ∧
        Bracket.byteLength before = index ∧
          Bracket.byteLength (before ++ bra :: inside) = offset := by
  refine ⟨fun what h => ?_, fun s index offset => Bracket.partner?_eq_some⟩
  unfold ofText? at h
  split at h
  · simp at h
  · dsimp only at h
    cases hruns : (Listing.read text).functions.mapM (FunctionRun.ofListing c) with
    | error e =>
      rw [hruns] at h
      obtain ⟨f, hf, hfail⟩ := exists_of_mapM_error hruns
      refine FunctionRun.ofListing_ne_overflow hf hsize (hbelow f hf) what ?_
      rw [hfail, ← Except.error.inj h]
    | ok runs =>
      simp [hruns, bind, Except.bind, canIndent_of_le (Config.indentSize_le hc)] at h

/-- A listing in which parentheses are counted: the first branch needs another pair, the second does
not. -/
def guardText : String :=
  "public fun guard(Arg0: u64) \x7b\n0: MoveLoc[0](Arg0: u64)\n1: Not\n2: BrTrue(5)\n" ++
    "3: VecPack(4, 3)\n4: CastU8\n5: BrTrue(7)\n6: Nop\n7: Ret\n\x7d\n"

theorem Decompilation.ofText?_guard :
    let c : Config := {}
    (c.validate = .ok () ∧
      guardText.utf8ByteSize * (c.maxInstructionsPerFunction + guardText.utf8ByteSize + 4) <
        wordLimit ∧
      ∀ f ∈ (Listing.read guardText).functions,
        (FunctionRun.loaded c f).StaysBelow depthLimit (Listing.body f.bodyLines).instructions) ∧
    (∀ what, ofText? c guardText ≠ .error (.overflow what)) ∧
    Bracket.partner? guardText.toList 16 = some 26 := by
  intro c
  have hc : c.validate = .ok () := by decide
  have hsize : guardText.utf8ByteSize *
      (c.maxInstructionsPerFunction + guardText.utf8ByteSize + 4) < wordLimit := by
    decide +kernel
  have hbelow : ∀ f ∈ (Listing.read guardText).functions,
      (FunctionRun.loaded c f).StaysBelow depthLimit (Listing.body f.bodyLines).instructions := by
    decide +kernel
  exact ⟨⟨hc, hsize, hbelow⟩, (ofText?_ne_overflow hc hsize hbelow).1, by decide +kernel⟩

/-- Two instructions that each ask for as many fragments as the largest limit allows. -/
def hugeText : String :=
  "public fun f() \x7b\n0: VecPack(0, 18446744073709551615)\n1: VecPack(0, 18446744073709551615)\n2: Ret\n\x7d\n"

/-- The largest limit is valid, and the count of what is missing does not fit under it. -/
theorem Decompilation.ofText?_huge :
    let c : Config := { maxInstructionsPerFunction := wordLimit - 1 }
    c.validate = .ok () ∧ hugeText.utf8ByteSize < 2 ^ 31 ∧
      ofText? c hugeText = .error (.overflow .unresolvedCount) := by
  intro c
  refine ⟨by decide, by decide +kernel, ?_⟩
  have h : (match ofText? c hugeText with
      | .error e => decide (e = .overflow .unresolvedCount)
      | .ok _ => false) = true := by decide +kernel
  split at h
  · next e he => rw [he, of_decide_eq_true h]
  · simp at h

end PseudoMove
