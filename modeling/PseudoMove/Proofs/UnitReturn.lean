import PseudoMove.Source
import PseudoMove.Proofs.Accounts

/-!
# Functions that return unit

Whether a function returns unit is decided twice.  The header shows no return type if that is left
out or written `()` (`functionHeader_eq_signature_iff`).  The body returns no value if the return
type has no components, and of a return type in parentheses this is said by what stands between
them: it is blank (`resultCount_eq_zero_iff`).  So the two differ for return types of nothing but
blanks in brackets (`IsHollow`), and for no others (`unit_decided`).  They are shown in the header,
while the body returns nothing (`unit_undecided_blank`).

What the body returns is followed along the run: of all statements, those of returns without a value
are the only ones without a space and without a parenthesis (`statement_eq_return_iff`), so that
they can be counted (`count_return_foldl_step`).
-/

namespace PseudoMove

open Text Listing PseudoMove.Bracket TypeText

/-! ## Return types that stand for no value -/

namespace TypeText

/-- A return type of blanks in brackets, other than `()`. The first bracket is a parenthesis; the
last one may be of any kind, since brackets are matched without regard to kind. -/
def IsHollow (ret : List Char) : Prop :=
  ret.head? = some '(' ∧ ret.tail.dropLast.all isBlank = true ∧
    (ret.tail.getLast?.any isClosing) = true ∧ ret ≠ ['(', ')']

instance (ret : List Char) : Decidable (IsHollow ret) := inferInstanceAs (Decidable (_ ∧ _))

theorem isHollow_iff {ret : List Char} :
    IsHollow ret ↔ ∃ b c, ret = '(' :: (b ++ [c]) ∧ b.all isBlank = true ∧ isClosing c = true ∧
      ret ≠ ['(', ')'] := by
  constructor
  · rintro ⟨hhead, hblank, hclose, hne⟩
    obtain ⟨r, rfl⟩ := List.head?_eq_some_iff.1 hhead
    obtain ⟨c, hlast, hc⟩ := (Option.any_eq_true _ _).1 hclose
    exact ⟨r.dropLast, c, congrArg _ (r.dropLast_append_getLast? c hlast).symm, hblank, hc, hne⟩
  · rintro ⟨b, c, rfl, hblank, hc, hne⟩
    exact ⟨rfl, by simpa using hblank, by simpa using hc, hne⟩

/-- **No value is returned** for a return type that is left out, is `()`, or is hollow. -/
theorem resultCount_eq_zero_iff {ret : List Char} :
    resultCount ret = 0 ↔ trim ret = [] ∨ trim ret = ['(', ')'] ∨ IsHollow (trim ret) := by
  unfold resultCount
  generalize trim ret = t
  dsimp only
  by_cases hunit : t = [] ∨ t = ['(', ')']
  · rw [if_pos hunit, ← or_assoc]
    exact iff_of_true rfl (.inl hunit)
  · rw [if_neg hunit, ← or_assoc, or_iff_right hunit]
    constructor
    · intro h
      split at h
      · next r =>
        split at h
        · next inside hinside =>
          obtain ⟨c, hc, rfl⟩ := eq_of_splitAtClose hinside
          have hblank := splitOutside_eq_nil_iff.1 (List.length_eq_zero_iff.1 h)
          rw [trim_eq_nil_iff] at hblank
          exact isHollow_iff.2
            ⟨inside, c, rfl, List.all_eq_true.2 hblank, hc, fun h => hunit (.inr h)⟩
        · exact absurd h Nat.one_ne_zero
      · exact absurd h Nat.one_ne_zero
    · intro h
      obtain ⟨b, c, rfl, hb, hc, -⟩ := isHollow_iff.1 h
      have hbalanced : IsBalanced b := depthThrough?_mono (depthThrough?_blanks hb)
      simp only [enclosed?_of_balanced hbalanced (isOpening_of_isClosing hc) hc []]
      exact congrArg List.length
        (splitOutside_eq_nil_iff.2 (trim_eq_nil_iff.2 (List.all_eq_true.1 hb)))

end TypeText

theorem FunctionHeader.returnsUnit_iff {h : FunctionHeader} :
    h.returnsUnit = true ↔ trim h.returnType.toList = [] ∨
      trim h.returnType.toList = ['(', ')'] := by
  have hunit : (trimmed h.returnType = "()") ↔ trim h.returnType.toList = ['(', ')'] := by
    rw [trimmed, String.ofList_eq]
    rfl
  have hempty : (trimmed h.returnType = "") ↔ trim h.returnType.toList = [] := by
    rw [trimmed, String.ofList_eq]
    rfl
  rw [FunctionHeader.returnsUnit, Bool.or_eq_true, decide_eq_true_eq,
    decide_eq_true_eq, hunit, hempty]

/-! ## What the header shows -/

namespace Source

/-- The header of a function up to its parameters. -/
def signature (h : FunctionHeader) : String :=
  h.visibility.keyword ++ "fun " ++ h.name ++ typeParameterList h.typeParameters ++ "(" ++
    ", ".intercalate (h.parameters.map fun p => p.name ++ ": " ++ p.paramType) ++ ")"

theorem functionHeader_eq (h : FunctionHeader) :
    functionHeader h = signature h ++ if h.returnsUnit then "" else ": " ++ trimmed h.returnType :=
  rfl

/-- **The header shows no return type** if that is written as unit, and otherwise it does. -/
theorem functionHeader_eq_signature_iff {h : FunctionHeader} :
    functionHeader h = signature h ↔ h.returnsUnit = true := by
  rw [functionHeader_eq]
  by_cases hunit : h.returnsUnit = true
  · rw [if_pos hunit, String.append_empty]
    exact iff_of_true rfl hunit
  · rw [if_neg hunit]
    refine iff_of_false (fun h => ?_) hunit
    have hlen := congrArg (fun s : String => s.toList.length) h
    simp [String.toList_append] at hlen

end Source

/-! ## What the body returns -/

namespace Machine

theorem mem_statement_callEffect {m : Machine} {f : Callee} {s : String}
    (hs : (m.callEffect f).statement = some s) :
    '(' ∈ s.toList := by
  unfold callEffect at hs
  dsimp only at hs
  split at hs
  · obtain rfl := Option.some.inj hs
    simp
  · exact absurd hs (by simp)
  · obtain rfl := Option.some.inj hs
    simp

/-- A statement other than that of a return without a value has a space or a parenthesis in it. -/
theorem mem_statement {m : Machine} {r : Instruction}
    {s : String} (hs : (m.effect r).statement = some s)
    (hother : ¬ (r.opcode = .ret ∧ resultCount m.header.returnType.toList = 0)) :
    ' ' ∈ s.toList ∨ '(' ∈ s.toList := by
  have hcomment : ∀ text, m.branchComment text = some s → ' ' ∈ s.toList := by
    intro text h
    obtain ⟨-, h⟩ := Option.ite_none_right_eq_some.1 h
    obtain rfl := Option.some.inj h
    simp
  cases hop : r.opcode
  case call =>
    cases hf : callee? r with
    | some f =>
      rw [m.effect_call hop hf] at hs
      exact .inr (mem_statement_callEffect hs)
    | none =>
      rw [m.effect_unresolvedCall hop hf] at hs
      obtain rfl := Option.some.inj hs
      simp
  all_goals rw [effect, hop] at hs
  all_goals dsimp only at hs
  case ret =>
    unfold returnEffect at hs
    split at hs
    · next h => exact absurd ⟨hop, h⟩ hother
    all_goals
      obtain rfl := Option.some.inj hs
      simp
  case brTrue | brFalse | branch => exact .inl (hcomment _ hs)
  case pop =>
    split at hs
    · exact absurd hs (by simp)
    · obtain rfl := Option.some.inj hs
      simp
  case stLoc | unpack | abort | writeRef | vecPushBack | vecSwap | moveTo =>
    obtain rfl := Option.some.inj hs
    simp
  -- the others write no statement
  all_goals cases hs

/-- **A return without a value is told by its statement**: `return;` is what is written for the
returns of a function whose return type stands for no value, and for nothing else. -/
theorem statement_eq_return_iff (m : Machine) (r : Instruction) :
    (m.effect r).statement = some "return;" ↔ r.opcode = .ret ∧
      resultCount m.header.returnType.toList = 0 := by
  constructor
  · intro h
    by_contra hother
    rcases mem_statement h hother with hc | hc <;> exact absurd hc (by decide)
  · rintro ⟨hop, hcount⟩
    rw [effect, hop]
    dsimp only
    rw [returnEffect, hcount]
    rfl

/-- The returns without a value that a run writes, by the return type of its function. -/
theorem count_return_foldl_step (m : Machine) (rs : List Instruction) :
    (rs.foldl step m).statements.count "return;" = m.statements.count "return;" +
      if resultCount m.header.returnType.toList = 0 then rs.countP (·.opcode = .ret) else 0 := by
  induction rs generalizing m with
  | nil => simp
  | cons r rs ih =>
    have hone : (m.effect r).statement.toList.count "return;" =
        if r.opcode = .ret ∧ resultCount m.header.returnType.toList = 0 then 1 else 0 := by
      split
      · next h =>
          rw [(m.statement_eq_return_iff r).2 h, Option.toList_some, List.count_singleton_self]
      · next h =>
          exact List.count_eq_zero.2 fun hmem =>
            h ((m.statement_eq_return_iff r).1 (Option.mem_toList.1 hmem))
    have hheader : (m.step r).header = m.header := rfl
    rw [List.foldl_cons, ih, hheader, statements_step, List.count_append, hone, List.countP_cons]
    by_cases hcount : resultCount m.header.returnType.toList = 0 <;>
      by_cases hop : r.opcode = .ret <;>
      simp [hcount, hop]
    omega

/-- **The returns without a value in a function that is written**: all its returns, or none. -/
theorem count_return_interpret (h : FunctionHeader) (b : Body) (options : MachineOptions) :
    (interpret h b options).function.statements.count "return;" =
      if resultCount h.returnType.toList =
        0 then b.instructions.countP (·.opcode = .ret) else 0 := by
  obtain ⟨t, declared, hdeclared⟩ := foldl_declare_eq b.locals (start h options)
  have hrun := count_return_foldl_step (b.locals.foldl declare (start h options)) b.instructions
  have hnone : (b.locals.foldl declare (start h options)).statements = [] := by
    rw [hdeclared]
    rfl
  have hheader : (b.locals.foldl declare (start h options)).header = h := by
    rw [hdeclared]
    rfl
  rw [hnone, hheader, List.count_nil, Nat.zero_add] at hrun
  exact hrun

end Machine

/-! ## Headers that are read -/

theorem trim_returnType (s : List Char) : trim (returnType s) = returnType s := by
  unfold returnType
  split
  · exact trim_trim _
  · rfl

/-- A return type that is read has no blanks around it. -/
theorem trim_of_functionHeader? {line : List Char} {f : FunctionListing}
    (hf : functionHeader? line = some f) :
    trim f.returnType.toList = f.returnType.toList := by
  simp only [functionHeader?, bind, Option.bind_eq_some_iff] at hf
  obtain ⟨⟨modifiers, name, s⟩, -, hf⟩ := hf
  rw [Option.ite_none_left_eq_some] at hf
  obtain ⟨-, hf⟩ := hf
  simp only [Option.bind_eq_some_iff] at hf
  obtain ⟨types, -, s, -, params, -, hf⟩ := hf
  obtain rfl := Option.some.inj hf
  rw [String.toList_ofList]
  exact trim_returnType _

/-- **Unit is decided the same way but for hollow return types.** For every header that is read and
every body, the header of the function that is written shows no return type exactly if the return
type is written as unit.  Such a function has no values to return, and all its returns are written
as `return;`.  A hollow return type is shown, and the returns are written so nevertheless; with any
other one that is shown, none is. -/
theorem unit_decided {line : List Char} {f : FunctionListing} (hf : functionHeader? line = some f)
    (b : Body) (options : MachineOptions) :
    let g := (interpret f.toFunctionHeader b options).function
    (Source.functionHeader g.toFunctionHeader = Source.signature g.toFunctionHeader ↔
      f.returnsUnit = true) ∧
      (resultCount f.returnType.toList = 0 ↔ f.returnsUnit = true ∨ IsHollow f.returnType.toList) ∧
      (IsHollow f.returnType.toList → f.returnsUnit = false) ∧
      g.statements.count "return;" =
        if f.returnsUnit = true ∨ IsHollow f.returnType.toList then
          b.instructions.countP (·.opcode = .ret)
        else 0 := by
  intro g
  have hunit : g.returnsUnit = f.returnsUnit := by
    rw [FunctionHeader.returnsUnit, FunctionHeader.returnsUnit,
      (sameSignature_interpret f.toFunctionHeader b options).returnType]
  have hread := trim_of_functionHeader? hf
  have hcount : resultCount f.returnType.toList = 0 ↔ f.returnsUnit = true ∨
      IsHollow f.returnType.toList := by
    rw [resultCount_eq_zero_iff, FunctionHeader.returnsUnit_iff, hread, or_assoc]
  refine ⟨?_, hcount, fun hhollow => ?_, ?_⟩
  · rw [Source.functionHeader_eq_signature_iff, hunit]
  · rw [← Bool.not_eq_true, FunctionHeader.returnsUnit_iff, hread]
    rintro (h | h)
    · rw [h] at hhollow
      exact absurd hhollow (by decide)
    · exact hhollow.2.2.2 h
  · rw [Machine.count_return_interpret]
    exact if_congr hcount rfl rfl

/-- A header that says `()`. -/
def burn : FunctionListing where
  visibility := .entryOnly
  name := "burn"
  parameters := [⟨"c", "Coin<T>"⟩]
  returnType := "()"

theorem unit_decided_burn :
    let b : Body :=
      ⟨[], [⟨0, .ldTrue, none, none⟩, ⟨1, .brTrue, some "3", none⟩,
        ⟨2, .ret, none, none⟩, ⟨3, .ret, none, none⟩]⟩
    let g := (interpret burn.toFunctionHeader b {}).function
    functionHeader? "entry fun burn(c: Coin<T>): () \x7b".toList = some burn ∧
      Source.functionHeader g.toFunctionHeader = Source.signature g.toFunctionHeader ∧
      resultCount burn.returnType.toList = 0 ∧ g.statements.count "return;" = 2 := by
  intro b g
  have hread : functionHeader? "entry fun burn(c: Coin<T>): () \x7b".toList = some burn := by
    decide +kernel
  have hunit : burn.returnsUnit = true := by decide
  obtain ⟨hheader, hcount, -, hstatements⟩ := unit_decided hread b {}
  refine ⟨hread, hheader.2 hunit, hcount.2 (.inl hunit), ?_⟩
  rw [hstatements, if_pos (.inl hunit)]
  decide

/-- A header with a blank between the parentheses. -/
def spaced : FunctionListing where
  visibility := .publicOnly
  name := "f"
  returnType := "( )"

/-- **A blank between the parentheses of unit** is kept in the header, while the body returns
nothing. -/
theorem unit_undecided_blank :
    let g := (interpret spaced.toFunctionHeader ⟨[], [⟨0, .ret, none, none⟩]⟩ {}).function
    (functionHeader? "public fun f(): ( ) \x7b".toList = some spaced ∧ spaced.returnsUnit = false ∧
      resultCount spaced.returnType.toList = 0 ∧
      Source.functionHeader g.toFunctionHeader = "public fun f(): ( )" ∧
      g.statements = ["return;"]) ∧
    ¬ ∀ (line : List Char) (f : FunctionListing), functionHeader? line = some f →
      (f.returnsUnit = true ↔ resultCount f.returnType.toList = 0) := by
  intro g
  have hread : functionHeader? "public fun f(): ( ) \x7b".toList = some spaced := by decide +kernel
  refine ⟨⟨hread, by decide, by decide, by decide +kernel, by decide +kernel⟩, fun h => ?_⟩
  exact absurd ((h _ _ hread).2 (by decide)) (by decide)

end PseudoMove
