import PseudoMove.Proofs.Occurrence
import PseudoMove.Proofs.RemarkTexts
import PseudoMove.Proofs.NameTable
import PseudoMove.Proofs.StackEffect

/-!
# What a step takes and what it writes

A step takes fragments from the stack and writes texts: a statement, and fragments that it pushes.
A word that does not come from elsewhere, from the line, from a name or from the fixed texts of the
machine (`Foreign`), occurs in what a step writes as often as in what it takes.

* `timesInAll_written` — this, for every instruction but one in every reachable state; `VecUnpack`
  writes the fragment that it takes once for each element;
* `timesIn_marker` — on a stack of markers, which are pairwise different words, perhaps borrowed,
  every marker taken is written exactly once;
* `timesIn_marker_vecUnpack` — that `VecUnpack` loses a marker and repeats it.
-/

namespace PseudoMove

open Identifier Fragment Remark

/-- The fixed texts that the machine prints around fragments and names. -/
def fixedTexts : List String :=
  ["let ", "let (", " = ", ") = ", ";", ");", "_ = ", "return ", "return (", "return;", "abort ",
    "// ", "// unresolved call ", "if ", " goto ", "goto ", " \x7b ... \x7d", " \x7b ... \x7d = ",
    "&", "&mut ", "*", "!", ".", "(", ")", " ", " as ", ", ", "::", "?", "true", "false",
    "vector[", "[", "]", ".length()", ".borrow(", ".borrow_mut(", ".push_back(", ".pop_back()",
    ".swap(", "move_to(", "exists", "move_from", "borrow_global", "borrow_global_mut",
    "<", ">(", ">"] ++
  Operator.all.map Operator.symbol ++ IntWidth.all.map IntWidth.name

/-- The word `w` comes from nowhere but the stack when the instruction `r` is run: it
occurs neither in the line, nor in a name, nor in a text that the machine prints, constants
and numbers included. -/
structure Foreign (m : Machine) (r : Instruction) (w : String) : Prop where
  word : IsWord w
  line : ∀ s ∈ r.remark.toList ++ r.operand.toList, timesIn w s = 0
  names : ∀ n ∈ (m.step r).locals.supply.used, timesIn w n = 0
  fixed : ∀ s ∈ fixedTexts, timesIn w s = 0
  constants : ∀ i : Nat, timesIn w ("CONST_" ++ toString i) = 0

namespace Foreign

variable {m : Machine} {r : Instruction} {w : String} (hf : Foreign m r w)
include hf

/-! ## Around a fixed text -/

theorem lit_append {s : String} (hs : s ∈ fixedTexts ∧ closes s = true) (a : String) :
    timesIn w (s ++ a) = timesIn w a := by
  rw [hf.word.timesIn_append (.inl hs.2), hf.fixed s hs.1, Nat.zero_add]

theorem append_lit {s : String} (hs : s ∈ fixedTexts ∧ opens s = true) (a : String) :
    timesIn w (a ++ s) = timesIn w a := by
  rw [hf.word.timesIn_append (.inr hs.2), hf.fixed s hs.1, Nat.add_zero]

theorem append_lit_append {s : String} (hs : s ∈ fixedTexts ∧ opens s = true ∧ closes s = true)
    (a b : String) : timesIn w (a ++ s ++ b) = timesIn w a + timesIn w b := by
  rw [hf.word.timesIn_append (.inl (closes_append a hs.2.2)), hf.append_lit ⟨hs.1, hs.2.1⟩]

theorem placeholder : timesIn w placeholder = 0 := hf.fixed _ (by decide)

theorem symbol (op : Operator) : timesIn w op.symbol = 0 :=
  hf.fixed _ (by cases op <;> decide)

theorem intName (ty : IntWidth) : timesIn w ty.name = 0 :=
  hf.fixed _ (by cases ty <;> decide)

/-! ## Texts of the line -/

theorem number (i : Nat) : timesIn w (toString i) = 0 := by
  refine hf.word.timesIn_of_infix ?_ (hf.constants i)
  rw [String.toList_append]
  exact (List.suffix_append _ _).isInfix

theorem remark {a : String} (h : r.remark = some a) : timesIn w a = 0 :=
  hf.line a (by simp [h])

theorem orPlaceholder {x : Option String} (h : ∀ s, x = some s → timesIn w s = 0) :
    timesIn w (Machine.orPlaceholder x) = 0 := by
  cases x with
  | none => exact hf.placeholder
  | some s => exact h s rfl

/-- A text read off the remark by a function that gives parts of it. -/
theorem ofRemark {read : List Char → Option (List Char)}
    (hread : ∀ {a n : List Char}, read a = some n → n <:+: a) {s : String}
    (h : (r.remark.bind fun a => read a.toList).map String.ofList = some s) : timesIn w s = 0 := by
  obtain ⟨n, hn, rfl⟩ := Option.map_eq_some_iff.1 h
  obtain ⟨a, ha, hn⟩ := Option.bind_eq_some_iff.1 hn
  refine hf.word.timesIn_of_infix ?_ (hf.remark ha)
  rw [String.toList_ofList]
  exact hread hn

theorem structOf? : timesIn w (Machine.orPlaceholder (Machine.structOf? r)) = 0 :=
  hf.orPlaceholder fun _ h => hf.ofRemark isInfix_of_structName? h

theorem fieldOf? : timesIn w (Machine.orPlaceholder (Machine.fieldOf? r)) = 0 :=
  hf.orPlaceholder fun _ h => hf.ofRemark isInfix_of_fieldName? h

theorem argument {a : String} (h : r.argument = some a) : timesIn w a = 0 := by
  obtain ⟨s, hs, hinfix⟩ := isInfix_of_argument h
  exact hf.word.timesIn_of_infix hinfix (hf.line s hs)

theorem targetOf : timesIn w (Machine.targetOf r) = 0 := hf.orPlaceholder fun _ => hf.argument

theorem constant? : timesIn w (Machine.orPlaceholder (Machine.constant? r)) = 0 := by
  refine hf.orPlaceholder fun s h => ?_
  unfold Machine.constant? at h
  dsimp only at h
  split at h
  · next v hv =>
    obtain rfl := Option.some.inj h
    obtain ⟨hv, -⟩ := Option.filter_eq_some_iff.1 hv
    exact hf.ofRemark isInfix_of_type (congrArg (Option.map String.ofList) hv)
  · obtain rfl := Option.some.inj h
    exact hf.constants _
  · exact hf.argument h

/-- A callee as it is printed. -/
theorem render {f : Callee} (h : callee? r = some f) (keep : Bool) :
    timesIn w (f.render keep) = 0 := by
  obtain ⟨a, ha, hread⟩ := Option.bind_eq_some_iff.1 h
  obtain ⟨hpath, htypes⟩ := isInfix_of_read? hread
  have hshort : timesIn w (String.ofList (TypeText.shortPath f.path.toList)) = 0 := by
    have e : ∀ ps : List (List Char), timesIn w (String.ofList ("::".toList.intercalate ps)) =
        timesInAll w (ps.map String.ofList) := by
      intro ps
      have hsep : "::" ∈ fixedTexts := by decide
      rw [← hf.word.timesIn_intercalate (by decide) (by decide) (hf.fixed _ hsep)]
      unfold timesIn
      rw [String.toList_ofList, String.toList_intercalate, List.map_map]
      simp [Function.comp_def]
    unfold TypeText.shortPath
    dsimp only
    rw [e]
    refine timesInAll_eq_zero fun s hs => ?_
    obtain ⟨p, hp, rfl⟩ := List.mem_map.1 hs
    obtain ⟨q, hq, rfl⟩ := List.mem_map.1 (List.mem_of_mem_drop hp)
    refine hf.word.timesIn_of_infix ?_ (hf.remark ha)
    rw [String.toList_ofList]
    exact (isInfix_trim q).trans ((isInfix_of_mem_segments hq).trans hpath)
  have htypes : timesInAll w f.typeArguments = 0 :=
    timesInAll_eq_zero fun t ht => hf.word.timesIn_of_infix (htypes t ht) (hf.remark ha)
  unfold Callee.render
  dsimp only
  split
  · simp (disch := decide) only [hf.append_lit, hf.append_lit_append, hshort, Nat.zero_add]
    exact (hf.word.timesIn_commaList _).trans htypes
  · exact hshort

/-! ## Names -/

theorem localName (hm : m.locals.WellFormed) (h : (m.effect r).locals = (m.localUse r).locals) :
    timesIn w (m.localUse r).name = 0 := by
  have hnames : ∀ n ∈ (m.localUse r).locals.supply.used, timesIn w n = 0 := by
    intro n hn
    refine hf.names n ?_
    show n ∈ (m.effect r).locals.supply.used
    rwa [h]
  cases hs : m.slotOf? r with
  | none =>
    have : (m.localUse r).name = Fragment.placeholder := by
      rw [Machine.localUse, hs]
    rw [this]
    exact hf.placeholder
  | some p =>
    obtain ⟨s, ty⟩ := p
    obtain ⟨name, t, huse, hself, hwf, -⟩ := Machine.localUse_of_slotOf? hm hs
    rw [huse] at hnames ⊢
    exact hnames name (hwf.mem_used s name hself)

/-! ## The fragments taken -/

/-- A fragment that is missing counts as the placeholder does, for nothing. -/
theorem timesInAll_take (n : Nat) :
    timesInAll w (m.stack.take n) = timesInAll w ((List.range n).map m.operand) := by
  induction n with
  | zero => rfl
  | succ n ih =>
    have hlast : timesInAll w m.stack[n]?.toList = timesInAll w [m.operand n] := by
      unfold Machine.operand
      cases m.stack[n]? with
      | none =>
        show 0 = timesIn w Fragment.placeholder + 0
        rw [hf.placeholder]
      | some f => rfl
    rw [List.take_add_one, timesInAll_append, ih, List.range_succ, List.map_append,
      timesInAll_append, hlast]
    rfl

theorem timesInAll_operands (n : Nat) :
    timesInAll w (m.operands n) = timesInAll w (m.stack.take n) := by
  unfold Machine.operands
  dsimp only
  rw [timesInAll_append, timesInAll_reverse, timesInAll_eq_zero, Nat.zero_add]
  intro s hs
  rw [List.eq_of_mem_replicate hs]
  exact hf.placeholder

end Foreign

/-! ## The effect of an instruction -/

/-- The texts that an effect writes: its statement, and the fragments it pushes. -/
def Effect.written (e : Effect) : List String := e.statement.toList ++ e.pushes

/-- The word occurs in what the effect writes as often as in what it takes. -/
def Effect.Keeps (m : Machine) (e : Effect) (w : String) : Prop :=
  timesInAll w e.written = timesInAll w (m.stack.take e.pops)

namespace Foreign

variable {m : Machine} {r : Instruction} {w : String} (hf : Foreign m r w) {e : Effect} {f : String}
include hf

omit hf in
theorem keeps_none (hp : e.pops = 0) (h : timesInAll w e.written = 0) : e.Keeps m w := by
  unfold Effect.Keeps
  rw [h, hp]
  rfl

theorem keeps_one (hp : e.pops = 1) (hw : e.written = [f])
    (h : timesIn w f = timesIn w (m.operand 0)) : e.Keeps m w := by
  unfold Effect.Keeps
  rw [hw, hp, hf.timesInAll_take]
  exact congrArg (· + 0) h

theorem keeps_two (hp : e.pops = 2) (hw : e.written = [f])
    (h : timesIn w f = timesIn w (m.operand 1) + timesIn w (m.operand 0)) : e.Keeps m w := by
  unfold Effect.Keeps
  rw [hw, hp, hf.timesInAll_take]
  show timesIn w f + 0 = timesIn w (m.operand 0) + (timesIn w (m.operand 1) + 0)
  omega

theorem keeps_three (hp : e.pops = 3) (hw : e.written = [f]) (h : timesIn w f =
      timesIn w (m.operand 2) + timesIn w (m.operand 1) + timesIn w (m.operand 0)) :
    e.Keeps m w := by
  unfold Effect.Keeps
  rw [hw, hp, hf.timesInAll_take]
  show timesIn w f + 0 =
    timesIn w (m.operand 0) + (timesIn w (m.operand 1) + (timesIn w (m.operand 2) + 0))
  omega

theorem keeps_readEffect (hm : m.locals.WellFormed) {borrow : String}
    (hborrow : ∀ f, timesIn w (borrow ++ f) = timesIn w f)
    (he : m.effect r = m.readEffect r borrow) :
    (m.readEffect r borrow).Keeps m w := by
  have hname := hf.localName hm (by rw [he]; rfl)
  refine keeps_none rfl ?_
  show timesIn w (borrow ++ (m.localUse r).name) + 0 = 0
  rw [hborrow, hname]

theorem keeps_storeEffect (hm : m.locals.WellFormed) (he : m.effect r = m.storeEffect r) :
    (m.storeEffect r).Keeps m w := by
  have hname := hf.localName hm (by rw [he]; rfl)
  have hlet : ∀ b : Bool, timesIn w ((if b then "let " else "") ++ (m.localUse r).name) = 0 := by
    intro b
    cases b
    · rw [if_neg Bool.false_ne_true, String.empty_append, hname]
    · rw [if_pos rfl, hf.lit_append (by decide), hname]
  refine hf.keeps_one rfl rfl ?_
  simp (disch := decide) only [hf.append_lit, hf.append_lit_append, hlet, Nat.zero_add]

theorem keeps_callEffect {c : Callee} (hc : callee? r = some c) (he : m.effect r = m.callEffect c) :
    (m.callEffect c).Keeps m w := by
  have hcall : timesIn w (c.render m.options.keepTypeArguments ++ "(" ++
      commaList (m.operands c.arity) ++ ")") = timesInAll w (m.stack.take c.arity) := by
    simp (disch := decide) only [hf.append_lit, hf.append_lit_append, hf.render hc,
      hf.word.timesIn_commaList, hf.timesInAll_operands, Nat.zero_add]
  unfold Effect.Keeps Effect.written
  match h : c.resultCount with
  | 0 =>
    rw [Machine.callEffect, h]
    show timesIn w (_ ++ ";") + 0 = _
    rw [hf.append_lit (by decide), hcall]
    rfl
  | 1 =>
    rw [Machine.callEffect, h]
    show timesIn w _ + 0 = _
    rw [hcall]
    rfl
  | n + 2 =>
    have hnames : timesInAll w (m.locals.temporaries "result" (n + 2)).1 = 0 := by
      refine timesInAll_eq_zero fun name hname => hf.names name ?_
      show name ∈ (m.effect r).locals.supply.used
      rw [he, Machine.callEffect, h]
      exact LocalNames.mem_used_temporaries (Or.inr hname)
    rw [Machine.callEffect, h]
    generalize c.render m.options.keepTypeArguments ++ "(" ++ commaList (m.operands c.arity) ++
      ")" = call at hcall
    show timesIn w ("let (" ++ commaList _ ++ ") = " ++ call ++ ";") +
      timesInAll w (m.locals.temporaries "result" (n + 2)).1 = timesInAll w (m.stack.take c.arity)
    simp (disch := decide) only [hf.append_lit, hf.append_lit_append, hf.lit_append,
      hf.word.timesIn_commaList, hnames, hcall, Nat.zero_add, Nat.add_zero]

theorem keeps_returnEffect : m.returnEffect.Keeps m w := by
  unfold Machine.returnEffect
  split
  · exact keeps_none rfl (congrArg (· + 0) (hf.fixed _ (by decide)))
  · refine hf.keeps_one rfl rfl ?_
    simp (disch := decide) only [hf.append_lit, hf.lit_append]
  · show timesIn w _ + 0 = _
    simp (disch := decide) only [hf.append_lit, hf.lit_append, hf.word.timesIn_commaList,
      hf.timesInAll_operands]
    rfl

theorem keeps_popEffect (h : r.opcode = .pop) : (m.effect r).Keeps m w := by
  rw [Machine.effect, h]
  dsimp only
  by_cases hv : m.operand 0 = Fragment.placeholder
  · rw [if_pos hv]
    unfold Effect.Keeps
    rw [hf.timesInAll_take]
    show 0 = timesIn w (m.operand 0) + 0
    rw [hv, hf.placeholder]
  · rw [if_neg hv]
    refine hf.keeps_one rfl rfl ?_
    simp (disch := decide) only [hf.append_lit, hf.lit_append]

theorem keeps_globalEffect {builtin : String} (hb : builtin ∈ fixedTexts) :
    (m.globalEffect r builtin).Keeps m w := by
  refine hf.keeps_one rfl rfl ?_
  simp (disch := decide) only [hf.append_lit, hf.append_lit_append, hf.fixed _ hb, hf.structOf?,
    Nat.zero_add]

/-- **Every instruction but `VecUnpack` keeps what it takes.** -/
theorem keeps_effect (hm : m.locals.WellFormed) (hc : m.options.emitBranchComments = true)
    (hop : r.opcode ≠ .vecUnpack) : (m.effect r).Keeps m w := by
  have hmut : timesIn w "&mut " = 0 := hf.fixed _ (by decide)
  have hcomment : ∀ text, m.branchComment text = some ("// " ++ text) := fun text => if_pos hc
  have he : ∀ {e : Effect}, m.effect r = e → e.Keeps m w → (m.effect r).Keeps m w := by
    rintro e rfl h
    exact h
  cases h : r.opcode
  case vecUnpack => exact absurd h hop
  case pop => exact hf.keeps_popEffect h
  case copyLoc | moveLoc =>
    have e : m.effect r = m.readEffect r "" := by rw [Machine.effect, h]
    exact he e (hf.keeps_readEffect hm (fun f => by rw [String.empty_append]) e)
  case immBorrowLoc =>
    have e : m.effect r = m.readEffect r "&" := by rw [Machine.effect, h]
    exact he e (hf.keeps_readEffect hm (hf.lit_append (by decide)) e)
  case mutBorrowLoc =>
    have e : m.effect r = m.readEffect r "&mut " := by rw [Machine.effect, h]
    exact he e (hf.keeps_readEffect hm (hf.lit_append (by decide)) e)
  case stLoc =>
    have e : m.effect r = m.storeEffect r := by rw [Machine.effect, h]
    exact he e (hf.keeps_storeEffect hm e)
  case call =>
    cases hr : callee? r with
    | some c => exact he (m.effect_call h hr) (hf.keeps_callEffect hr (m.effect_call h hr))
    | none =>
      rw [m.effect_unresolvedCall h hr]
      refine keeps_none rfl (congrArg (· + 0) ?_)
      rw [hf.lit_append (by decide), hf.targetOf]
  all_goals rw [Machine.effect, h]
  all_goals dsimp only
  case ret => exact hf.keeps_returnEffect
  case existsGlobal | moveFrom | immBorrowGlobal | mutBorrowGlobal =>
    exact hf.keeps_globalEffect (by decide)
  -- nothing is taken
  case nop | unknown => exact keeps_none rfl rfl
  case ldTrue | ldFalse => exact keeps_none rfl (congrArg (· + 0) (hf.fixed _ (by decide)))
  case ldInt =>
    exact keeps_none rfl (congrArg (· + 0) (hf.orPlaceholder fun _ => hf.argument))
  case ldConst => exact keeps_none rfl (congrArg (· + 0) hf.constant?)
  case pack =>
    refine keeps_none rfl (congrArg (· + 0) ?_)
    rw [hf.append_lit (by decide), hf.structOf?]
  case branch =>
    rw [hcomment]
    refine keeps_none rfl (congrArg (· + 0) ?_)
    simp (disch := decide) only [hf.lit_append, hf.targetOf]
  -- vectors are packed from any number of fragments
  case vecPack =>
    show timesIn w _ + 0 = _
    simp (disch := decide) only [hf.append_lit, hf.lit_append, hf.word.timesIn_commaList,
      hf.timesInAll_operands]
    rfl
  -- comments
  case brTrue | brFalse =>
    rw [hcomment]
    refine hf.keeps_one rfl rfl ?_
    simp (disch := decide) only [hf.lit_append, hf.append_lit_append, hf.targetOf,
      hf.word.timesIn_inParentheses, hf.word.timesIn_negated, Nat.add_zero]
  -- one fragment
  case freezeRef => exact hf.keeps_one rfl rfl (hf.word.timesIn_freeze hmut _)
  case readRef => exact hf.keeps_one rfl rfl (hf.word.timesIn_dereferenced hmut _)
  case not => exact hf.keeps_one rfl rfl (hf.word.timesIn_negated _)
  case unpack | abort | immBorrowField | mutBorrowField | cast | vecLen | vecPopBack =>
    refine hf.keeps_one rfl rfl ?_
    simp (disch := decide) only [hf.lit_append, hf.append_lit, hf.append_lit_append, hf.structOf?,
      hf.fieldOf?, hf.intName, hf.word.timesIn_unborrowed hmut, Nat.zero_add, Nat.add_zero]
  -- two
  case writeRef =>
    refine hf.keeps_two rfl rfl ?_
    simp (disch := decide) only [hf.append_lit, hf.append_lit_append,
      hf.word.timesIn_dereferenced hmut]
    exact Nat.add_comm _ _
  case binary | vecImmBorrow | vecMutBorrow | vecPushBack | moveTo =>
    refine hf.keeps_two rfl rfl ?_
    simp (disch := decide) only [hf.lit_append, hf.append_lit, hf.append_lit_append, hf.symbol,
      hf.word.timesIn_unborrowed hmut, Nat.add_zero]
  -- three
  case vecSwap =>
    refine hf.keeps_three rfl rfl ?_
    simp (disch := decide)
      only [hf.append_lit, hf.append_lit_append, hf.word.timesIn_unborrowed hmut]

/-- `VecUnpack` writes the fragment that it takes once for each element. -/
theorem written_vecUnpack (hop : r.opcode = .vecUnpack) :
    timesInAll w (m.effect r).written =
      (m.elementCount r).count * timesInAll w (m.stack.take 1) := by
  have helement : (timesIn w ∘ fun i : Nat => m.operand 0 ++ "[" ++ toString i ++ "]") =
      fun _ => timesIn w (m.operand 0) := by
    funext i
    show timesIn w (m.operand 0 ++ "[" ++ toString i ++ "]") = _
    simp (disch := decide) only [hf.append_lit, hf.append_lit_append, hf.number, Nat.add_zero]
  have he : (m.effect r).written = (List.range (m.elementCount r).count).map fun i =>
      m.operand 0 ++ "[" ++ toString i ++ "]" := by
    rw [Machine.effect, hop]
    rfl
  rw [he, hf.timesInAll_take, timesInAll, List.map_map, helement, List.map_const',
    List.sum_replicate_nat, List.length_range]
  rfl

end Foreign

/-! ## Steps -/

/-- The texts that a step writes: the statements that are new, and the fragments that it pushes. -/
def Machine.written (m : Machine) (r : Instruction) : List String :=
  (m.step r).statements.drop m.statements.length ++
    (m.step r).stack.take (stackEffect m.header m.options.maxVectorElements r).pushes

variable {h : FunctionHeader} {options : MachineOptions} {m : Machine} {r : Instruction}

theorem timesInAll_machineWritten (w : String) :
    timesInAll w (m.written r) = timesInAll w (m.effect r).written := by
  have hpushes : (m.step r).stack.take (stackEffect m.header m.options.maxVectorElements r).pushes =
      (m.effect r).pushes.reverse := by
    rw [← (m.counts_effect r).pushes, ← List.length_reverse]
    exact List.take_left
  rw [Machine.written, m.statements_step, List.drop_left, hpushes, Effect.written,
    timesInAll_append, timesInAll_append, timesInAll_reverse]

/-- **What a step takes it writes.** In every reachable state, a word that comes from nowhere but
the stack occurs in what an instruction writes as often as in the fragments that it takes.
`VecUnpack` alone writes its fragment once for each element. -/
theorem timesInAll_written (hm : Machine.Reachable h options m)
    (hc : options.emitBranchComments = true) {w : String} (hf : Foreign m r w) :
    let e := stackEffect m.header m.options.maxVectorElements r
    timesInAll w (m.written r) =
      (if r.opcode = .vecUnpack then e.pushes else 1) * timesInAll w (m.stack.take e.pops) := by
  intro e
  have hcounts := m.counts_effect r
  rw [timesInAll_machineWritten]
  by_cases hop : r.opcode = .vecUnpack
  · have hpops : e.pops = 1 := by
      show (stackEffect _ _ r).pops = 1
      rw [stackEffect, hop]
    have hpushes : e.pushes = (m.elementCount r).count := by
      show (stackEffect _ _ r).pushes = _
      rw [stackEffect, hop, m.count_elementCount]
    rw [if_pos hop, hf.written_vecUnpack hop, hpops, hpushes]
  · have hkeeps := hf.keeps_effect hm.wellFormed (by rw [hm.options_eq, hc]) hop
    rw [if_neg hop, Nat.one_mul, ← hcounts.pops]
    exact hkeeps

/-! ## Markers -/

/-- A marker: a word, perhaps with a borrow before it. -/
structure Marker where
  borrow : String := ""
  word : String
  isBorrow : borrow ∈ ["", "&", "&mut "] := by decide

/-- The fragment that a marker is. -/
def Marker.text (k : Marker) : String := k.borrow ++ k.word

/-- The fragments on the stack are markers, top first. No word is a part of another one, and none
comes from elsewhere when `r` is run. -/
structure Marked (m : Machine) (r : Instruction) (marks : List Marker) : Prop where
  stack : m.stack = marks.map Marker.text
  apart : marks.Pairwise fun a b => timesIn a.word b.word = 0 ∧ timesIn b.word a.word = 0
  isForeign : ∀ k ∈ marks, Foreign m r k.word

theorem timesIn_text {w : String} (hf : Foreign m r w) (k : Marker) :
    timesIn w k.text = timesIn w k.word := by
  have hb := k.isBorrow
  unfold Marker.text
  simp only [List.mem_cons, List.not_mem_nil, or_false] at hb
  rcases hb with hb | hb | hb <;> rw [hb]
  · rw [String.empty_append]
  · exact hf.lit_append (by decide) _
  · exact hf.lit_append (by decide) _

/-- Among markers, each occurs once. -/
theorem timesInAll_markers {marks : List Marker}
    (ha : marks.Pairwise fun a b => timesIn a.word b.word = 0 ∧ timesIn b.word a.word = 0)
    (hf : ∀ k ∈ marks, Foreign m r k.word) {k : Marker} (hk : k ∈ marks) :
    timesInAll k.word (marks.map Marker.text) = 1 := by
  have hk' := hf k hk
  induction marks with
  | nil => exact absurd hk List.not_mem_nil
  | cons j marks ih =>
    obtain ⟨hj, ha⟩ := List.pairwise_cons.1 ha
    have hf' : ∀ k ∈ marks, Foreign m r k.word := fun k hk => hf k (List.mem_cons_of_mem _ hk)
    show timesIn k.word j.text + timesInAll k.word (marks.map Marker.text) = 1
    rw [timesIn_text hk']
    rcases List.mem_cons.1 hk with rfl | hk
    · rw [hk'.word.timesIn_self, timesInAll_eq_zero]
      intro s hs
      obtain ⟨i, hi, rfl⟩ := List.mem_map.1 hs
      rw [timesIn_text hk']
      exact (hj i hi).1
    · rw [(hj k hk).2, ih ha hf' hk]

/-- **No marker is lost or repeated by a step, unless it is unpacked.** In every reachable
state whose fragments are markers, each marker that an instruction takes occurs exactly once
in the statement and the fragments that it writes; the one that `VecUnpack` takes occurs
once for each element. -/
theorem timesIn_marker (hm : Machine.Reachable h options m) (hc : options.emitBranchComments = true)
    {marks : List Marker} (hk : Marked m r marks) :
    let e := stackEffect m.header m.options.maxVectorElements r
    ∀ k ∈ marks.take e.pops, timesInAll k.word (m.written r) =
      if r.opcode = .vecUnpack then e.pushes else 1 := by
  intro e k hmem
  rw [timesInAll_written hm hc (hk.isForeign k (List.mem_of_mem_take hmem)), hk.stack,
    ← List.map_take, timesInAll_markers (hk.apart.sublist (List.take_sublist _ _))
    (fun j hj => hk.isForeign j (List.mem_of_mem_take hj)) hmem, Nat.mul_one]

/-! ### Two markers borrowed, and one unpacked -/

/-- A word with a character that is in no constant's name. -/
theorem timesIn_constant {w : String} (hw : IsWord w) {c : Char} (hc : c ∈ w.toList)
    (h1 : c ∉ "CONST_".toList) (h2 : c.isDigit = false) (i : Nat) :
    timesIn w ("CONST_" ++ toString i) = 0 := by
  rw [hw.timesIn_eq_zero_iff]
  intro h
  have hmem := h.subset hc
  rw [String.toList_append, List.mem_append, Nat.toString_eq_repr, Nat.toList_repr] at hmem
  rcases hmem with hmem | hmem
  · exact h1 hmem
  · rw [Text.isDigit_of_mem_toDigits hmem] at h2
    exact absurd h2 (by decide)

/-- A function without parameters. -/
def spreadHeader : FunctionHeader := { name := "spread" }

/-- Loads a constant whose value is a word. -/
def loadWord (value : String) : Instruction :=
  ⟨0, .ldConst, some "0", some ("vector<u64>: " ++ value)⟩

/-- The machine with a table on its stack. -/
def tableMachine : Machine := (Machine.start spreadHeader {}).step (loadWord "table")

/-- The machine with a table and an index on its stack, the table borrowed. -/
def indexMachine : Machine :=
  ((Machine.start spreadHeader {}).step (loadWord "&table")).step (loadWord "index")

/-- A vector instruction with a remark. -/
def unpackTable (remark : String) : Instruction := ⟨1, .vecUnpack, none, some remark⟩

theorem foreign_table {m : Machine} {r : Instruction} (hnames : (m.step r).locals.supply.used = [])
    (hline : ∀ s ∈ r.remark.toList ++ r.operand.toList, timesIn "table" s = 0) :
    Foreign m r "table" := by
  refine ⟨by decide, hline, ?_, by decide +kernel, ?_⟩
  · intro n hn
    rw [hnames] at hn
    exact absurd hn List.not_mem_nil
  · exact timesIn_constant (c := 't') (by decide) (by decide) (by decide) (by decide)

/-- Borrows an element of a vector. -/
def borrowElement : Instruction := ⟨2, .vecImmBorrow, none, none⟩

/-- The index and the borrowed table. -/
def indexMarks : List Marker := [⟨"", "index", by decide⟩, ⟨"&", "table", by decide⟩]

theorem marked_indexMachine : Marked indexMachine borrowElement indexMarks := by
  have hnames : (indexMachine.step borrowElement).locals.supply.used = [] := by decide +kernel
  have hindex : Foreign indexMachine borrowElement "index" := by
    refine ⟨by decide, by decide, ?_, by decide +kernel, ?_⟩
    · intro n hn
      rw [hnames] at hn
      exact absurd hn List.not_mem_nil
    · exact timesIn_constant (c := 'x') (by decide) (by decide) (by decide) (by decide)
  refine ⟨by decide +kernel, by decide, ?_⟩
  rw [indexMarks, List.forall_mem_cons, List.forall_mem_singleton]
  exact ⟨hindex, foreign_table hnames (by decide)⟩

/-- An element is borrowed: the table and the index occur once in what is pushed. -/
theorem timesIn_borrowElement :
    Machine.Reachable spreadHeader {} indexMachine ∧
    Marked indexMachine borrowElement indexMarks ∧
    indexMachine.written borrowElement = ["table.borrow(index)"] ∧
    ∀ k ∈ indexMarks, timesInAll k.word (indexMachine.written borrowElement) = 1 := by
  have hm : Machine.Reachable spreadHeader {} indexMachine := .step _ (.step _ .start)
  refine ⟨hm, marked_indexMachine, by decide +kernel, fun k hk => ?_⟩
  have hne : borrowElement.opcode ≠ .vecUnpack := by decide
  rw [timesIn_marker hm rfl marked_indexMachine k hk, if_neg hne]

/-- **`VecUnpack` loses a marker and repeats it**: it occurs in nothing that is written if the
vector is taken to have no elements, and twice if it is taken to have two. -/
theorem timesIn_marker_vecUnpack :
    Machine.Reachable spreadHeader {} tableMachine ∧
    (∀ remark ∈ ["4, 0", "4, 2"],
      Marked tableMachine (unpackTable remark) [⟨"", "table", by decide⟩] ∧
      (stackEffect spreadHeader 100000 (unpackTable remark)).pops = 1) ∧
    timesInAll "table" (tableMachine.written (unpackTable "4, 0")) = 0 ∧
    timesInAll "table" (tableMachine.written (unpackTable "4, 2")) = 2 := by
  refine ⟨.step _ .start, ?_, by decide +kernel, by decide +kernel⟩
  have hk : ∀ remark : String, (tableMachine.step (unpackTable remark)).locals.supply.used = [] →
      timesIn "table" remark = 0 →
      Marked tableMachine (unpackTable remark) [⟨"", "table", by decide⟩] := by
    intro remark hnames hremark
    refine ⟨by decide +kernel, List.pairwise_singleton _ _, ?_⟩
    rw [List.forall_mem_singleton]
    refine foreign_table hnames fun s hs => ?_
    obtain rfl : s = remark := by simpa [unpackTable] using hs
    exact hremark
  rw [List.forall_mem_cons, List.forall_mem_singleton]
  exact ⟨⟨hk _ (by decide +kernel) (by decide), by decide⟩,
    ⟨hk _ (by decide +kernel) (by decide), by decide⟩⟩

end PseudoMove
