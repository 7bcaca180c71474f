import PseudoMove.Proofs.BracketedList
import PseudoMove.Proofs.LineTexts
import PseudoMove.Proofs.NameHistory

/-!
# What the options of a run decide

Whether branches get comments and whether calls keep their type arguments decides how a run is
written down, and nothing else.  Under other options the fragments on the stack have other texts,
which later instructions look into: a borrow is taken away or not, a fragment is negated with
parentheses or without, and what is popped is written unless it is a placeholder.

* `Akin` — how the fragments of two such runs differ: if they do, both have an opening
  parenthesis.  No rule by which a fragment is written inside a larger one takes it away,
  and a placeholder has none;
* `Machine.Alike` — the relation between two such runs, kept by every operation (`Alike.actAll`);
* `Machine.ledger` — the statements of a run with the instructions that write them;
* `Machine.interpret_options` — what stays the same under any options, what goes with the comments
  on branches, and what changes with the type arguments of calls.
-/

namespace PseudoMove

open Text Fragment

/-! ## Fragments that differ -/

/-- The fragment has an opening parenthesis. -/
def IsCompound (f : String) : Prop := '(' ∈ f.toList

instance (f : String) : Decidable (IsCompound f) := inferInstanceAs (Decidable ('(' ∈ f.toList))

/-- Two fragments that are the same or have each an opening parenthesis. -/
def Akin (a b : String) : Prop := a = b ∨ IsCompound a ∧ IsCompound b

@[simp] theorem isCompound_append {a b : String} :
    IsCompound (a ++ b) ↔ IsCompound a ∨ IsCompound b := by
  simp [IsCompound]

theorem isCompound_of_suffix {f : String} {p r : List Char} (hf : IsCompound f) (hp : '(' ∉ p)
    (h : f.toList = p ++ r) : IsCompound (String.ofList r) := by
  have hmem : '(' ∈ p ++ r := h ▸ hf
  have hr := (List.mem_append.1 hmem).resolve_left hp
  rwa [IsCompound, String.toList_ofList]

theorem IsCompound.unborrowed {f : String} (hf : IsCompound f) : IsCompound (unborrowed f) := by
  unfold Fragment.unborrowed
  split
  · next r hr => exact isCompound_of_suffix hf (by decide) (afterPrefix?_eq_some_iff.1 hr)
  · split
    · next r hr => exact isCompound_of_suffix hf (p := ['&']) (by decide) hr
    · exact hf

theorem IsCompound.dereferenced {f : String} (hf : IsCompound f) : IsCompound (dereferenced f) := by
  unfold Fragment.dereferenced
  split
  · exact hf.unborrowed
  · exact isCompound_append.2 (.inr hf)

theorem IsCompound.freeze {f : String} (hf : IsCompound f) : IsCompound (freeze f) := by
  unfold Fragment.freeze
  split
  · next r hr =>
    exact isCompound_append.2
      (.inr (isCompound_of_suffix hf (by decide) (afterPrefix?_eq_some_iff.1 hr)))
  · exact hf

theorem IsCompound.negated {f : String} (hf : IsCompound f) : IsCompound (negated f) := by
  have hin : IsCompound (inParentheses f) := by
    unfold inParentheses
    split
    · exact hf
    · simp [hf]
  unfold Fragment.negated
  split
  · exact isCompound_append.2 (.inr hf)
  · exact isCompound_append.2 (.inr hin)

theorem isCompound_commaList {f : String} {fs : List String} (hmem : f ∈ fs) (hf : IsCompound f) :
    IsCompound (commaList fs) := by
  unfold commaList
  induction fs with
  | nil => exact absurd hmem List.not_mem_nil
  | cons g fs ih =>
    cases fs with
    | nil =>
      obtain rfl := List.mem_singleton.1 hmem
      rwa [String.intercalate_singleton]
    | cons x fs =>
      rw [String.intercalate_cons_cons, isCompound_append, isCompound_append]
      rcases List.mem_cons.1 hmem with rfl | hmem
      · exact .inl (.inl hf)
      · exact .inr (ih hmem)

namespace Akin

variable {a b c d : String}

theorem refl (a : String) : Akin a a := .inl rfl

/-- What is made of two fragments by a rule that keeps opening parentheses. -/
theorem map {f : String → String} (hf : ∀ {s}, IsCompound s → IsCompound (f s)) (h : Akin a b) :
    Akin (f a) (f b) := by
  obtain rfl | ⟨ha, hb⟩ := h
  · exact refl _
  · exact .inr ⟨hf ha, hf hb⟩

/-- What is made of two pairs of fragments by a rule that keeps opening parentheses. -/
theorem map₂ {f : String → String → String}
    (hf : ∀ {s t}, IsCompound s ∨ IsCompound t → IsCompound (f s t))
    (h : Akin a b) (h' : Akin c d) : Akin (f a c) (f b d) := by
  obtain rfl | ⟨ha, hb⟩ := h
  · exact h'.map fun hs => hf (.inr hs)
  · exact .inr ⟨hf (.inl ha), hf (.inl hb)⟩

/-- A placeholder is akin to no other fragment. -/
theorem eq_placeholder_iff (h : Akin a b) : a = placeholder ↔ b = placeholder := by
  have hnone : ¬ IsCompound placeholder := by decide
  obtain rfl | ⟨ha, hb⟩ := h
  · rfl
  · exact ⟨fun e => absurd (e ▸ ha) hnone, fun e => absurd (e ▸ hb) hnone⟩

end Akin

/-- Fragments that are akin one by one are so when they are listed. -/
theorem akin_commaList {fs gs : List String} (h : List.Forall₂ Akin fs gs) :
    Akin (commaList fs) (commaList gs) := by
  by_cases e : fs = gs
  · exact .inl (congrArg commaList e)
  · have hdiffer : ∃ f ∈ fs, ∃ g ∈ gs, IsCompound f ∧ IsCompound g := by
      induction h with
      | nil => exact absurd rfl e
      | @cons a b fs gs hab hs ih =>
        obtain rfl | hab := hab
        · obtain ⟨f, hf, g, hg, hfg⟩ := ih fun e' => e (congrArg (a :: ·) e')
          exact ⟨f, List.mem_cons_of_mem a hf, g, List.mem_cons_of_mem a hg, hfg⟩
        · exact ⟨a, List.mem_cons_self, b, List.mem_cons_self, hab⟩
    obtain ⟨f, hf, g, hg, hcf, hcg⟩ := hdiffer
    exact .inr ⟨isCompound_commaList hf hcf, isCompound_commaList hg hcg⟩

/-! ## Machines that run alike -/

/-- Two effects that differ in the texts of their fragments and in what they write. -/
structure Effect.Alike (e e' : Effect) : Prop where
  pops : e.pops = e'.pops
  pushes : List.Forall₂ Akin e.pushes e'.pushes
  misses : e.misses = e'.misses
  locals : e.locals = e'.locals
  assigned : e.assigned = e'.assigned
  skipped : e.skipped = e'.skipped

namespace Machine

/-- Two machines that differ in their options, but not in the limit on vectors, in the texts of
their fragments, and in what they have written. -/
structure Alike (m n : Machine) : Prop where
  header : m.header = n.header
  limit : m.options.maxVectorElements = n.options.maxVectorElements
  stack : List.Forall₂ Akin m.stack n.stack
  locals : m.locals = n.locals
  assigned : m.assigned = n.assigned
  declared : m.declared = n.declared
  skipped : m.skipped = n.skipped
  unresolved : m.unresolved = n.unresolved

variable {m n : Machine}

/-- What is pushed alone. -/
theorem alike_one {a b : String} (h : Akin a b) : List.Forall₂ Akin [a] [b] := .cons h .nil

theorem alike_refl (fs : List String) : List.Forall₂ Akin fs fs :=
  List.forall₂_same.2 fun f _ => .refl f

namespace Alike

variable (h : m.Alike n) (r : Instruction)
include h

theorem operand (i : Nat) : Akin (m.operand i) (n.operand i) := by
  have key : ∀ {fs gs : List String}, List.Forall₂ Akin fs gs → ∀ i : Nat,
      Akin (fs[i]?.getD placeholder) (gs[i]?.getD placeholder) := by
    intro fs gs hs
    induction hs with
    | nil => exact fun _ => .refl placeholder
    | cons hab _ ih =>
      intro i
      cases i with
      | zero => exact hab
      | succ i => exact ih i
  exact key h.stack i

theorem operands (k : Nat) : List.Forall₂ Akin (m.operands k) (n.operands k) := by
  unfold Machine.operands
  rw [h.stack.length_eq]
  exact List.rel_append (alike_refl _) (List.forall₂_reverse_iff.2 (List.forall₂_take k h.stack))

theorem slotOf? : m.slotOf? r = n.slotOf? r := by
  unfold Machine.slotOf?
  rw [h.header, h.declared]

theorem localUse : m.localUse r = n.localUse r := by
  unfold Machine.localUse
  rw [h.slotOf? r, h.locals]

theorem elementCount : (m.elementCount r).count = (n.elementCount r).count ∧
    (m.elementCount r).misses = (n.elementCount r).misses := by
  rw [count_elementCount, count_elementCount, misses_elementCount, misses_elementCount, h.limit]
  exact ⟨rfl, rfl⟩

theorem readEffect (borrow : String) : (m.readEffect r borrow).Alike (n.readEffect r borrow) := by
  unfold Machine.readEffect
  rw [h.localUse r]
  exact ⟨rfl, alike_refl _, rfl, rfl, rfl, rfl⟩

theorem storeEffect : (m.storeEffect r).Alike (n.storeEffect r) := by
  unfold Machine.storeEffect
  rw [h.localUse r, h.assigned]
  exact ⟨rfl, .nil, rfl, rfl, rfl, rfl⟩

theorem globalEffect (builtin : String) :
    (m.globalEffect r builtin).Alike (n.globalEffect r builtin) := by
  refine ⟨rfl, alike_one ?_, rfl, h.locals, rfl, rfl⟩
  exact (h.operand 0).map (f := fun t => builtin ++ "<" ++ orPlaceholder (structOf? r) ++ ">(" ++
      t ++ ")") fun _ => by
    simp +decide

theorem callEffect (f : Callee) : (m.callEffect f).Alike (n.callEffect f) := by
  unfold Machine.callEffect
  dsimp only
  rw [h.locals]
  split
  · exact ⟨rfl, .nil, rfl, rfl, rfl, rfl⟩
  · refine ⟨rfl, alike_one (.inr ⟨?_, ?_⟩), rfl, rfl, rfl, rfl⟩ <;> simp +decide
  · exact ⟨rfl, alike_refl _, rfl, rfl, rfl, rfl⟩

theorem returnEffect : m.returnEffect.Alike n.returnEffect := by
  unfold Machine.returnEffect
  rw [h.header, h.locals]
  split <;> exact ⟨rfl, .nil, rfl, rfl, rfl, rfl⟩

/-- **An instruction has the same effect in both machines**, up to the texts of its
fragments and its statement. -/
theorem effect : (m.effect r).Alike (n.effect r) := by
  have htop := h.operand 0
  have hsnd := h.operand 1
  cases hop : r.opcode
  case call =>
    cases hf : callee? r with
    | some f =>
      rw [m.effect_call hop hf, n.effect_call hop hf]
      exact h.callEffect f
    | none =>
      rw [m.effect_unresolvedCall hop hf, n.effect_unresolvedCall hop hf]
      exact ⟨rfl, .nil, rfl, h.locals, rfl, rfl⟩
  all_goals rw [Machine.effect, Machine.effect, hop]
  all_goals dsimp only
  case copyLoc | moveLoc | immBorrowLoc | mutBorrowLoc => exact h.readEffect r _
  case stLoc => exact h.storeEffect r
  case ret => exact h.returnEffect
  case existsGlobal | moveFrom | immBorrowGlobal | mutBorrowGlobal => exact h.globalEffect r _
  -- nothing is taken, or nothing put back
  case nop | unknown | pop | brTrue | brFalse | branch | abort | unpack | writeRef
      | vecPushBack | vecSwap | moveTo =>
    exact ⟨rfl, .nil, rfl, h.locals, rfl, rfl⟩
  case pack | ldInt | ldTrue | ldFalse | ldConst =>
    exact ⟨rfl, alike_refl _, rfl, h.locals, rfl, rfl⟩
  -- one fragment is made of one
  case freezeRef => exact ⟨rfl, alike_one (htop.map IsCompound.freeze), rfl, h.locals, rfl, rfl⟩
  case readRef => exact ⟨rfl, alike_one (htop.map IsCompound.dereferenced), rfl, h.locals, rfl, rfl⟩
  case not => exact ⟨rfl, alike_one (htop.map IsCompound.negated), rfl, h.locals, rfl, rfl⟩
  case cast ty =>
    refine ⟨rfl,
      alike_one (htop.map (f := fun t => "(" ++ t ++ " as " ++ ty.name ++ ")") fun hs => ?_),
      rfl, h.locals, rfl, rfl⟩
    simp [hs]
  case immBorrowField | mutBorrowField =>
    have hfield : ∀ borrow : String,
        Akin (borrow ++ unborrowed (m.operand 0) ++ "." ++ orPlaceholder (fieldOf? r))
        (borrow ++ unborrowed (n.operand 0) ++ "." ++ orPlaceholder (fieldOf? r)) := by
      intro borrow
      refine htop.map (f := fun t => borrow ++ unborrowed t ++ "." ++ orPlaceholder (fieldOf? r))
        fun hs => ?_
      simp [hs.unborrowed]
    exact ⟨rfl, alike_one (hfield _), rfl, h.locals, rfl, rfl⟩
  case vecLen | vecPopBack =>
    have hmethod : ∀ call : String, Akin (unborrowed (m.operand 0) ++ call)
        (unborrowed (n.operand 0) ++ call) := by
      intro call
      exact htop.map (f := fun t => unborrowed t ++ call) fun hs => by simp [hs.unborrowed]
    exact ⟨rfl, alike_one (hmethod _), rfl, h.locals, rfl, rfl⟩
  -- one fragment is made of several
  case binary op =>
    refine ⟨rfl, alike_one ?_, rfl, h.locals, rfl, rfl⟩
    exact hsnd.map₂ (f := fun s t => "(" ++ s ++ " " ++ op.symbol ++ " " ++ t ++ ")")
      (fun _ => by simp +decide) htop
  case vecImmBorrow | vecMutBorrow =>
    have hmethod : ∀ call : String, Akin (unborrowed (m.operand 1) ++ call ++ m.operand 0 ++ ")")
        (unborrowed (n.operand 1) ++ call ++ n.operand 0 ++ ")") := by
      intro call
      refine hsnd.map₂ (f := fun s t => unborrowed s ++ call ++ t ++ ")") (fun hs => ?_) htop
      rcases hs with hs | hs
      · simp [hs.unborrowed]
      · simp [hs]
    exact ⟨rfl, alike_one (hmethod _), rfl, h.locals, rfl, rfl⟩
  case vecPack =>
    obtain ⟨hcount, hmisses⟩ := h.elementCount r
    rw [hcount, hmisses]
    refine ⟨rfl, alike_one ?_, rfl, h.locals, rfl, rfl⟩
    exact (akin_commaList (h.operands _)).map (f := fun t => "vector[" ++ t ++ "]") fun hs => by
      simp [hs]
  -- and several of one
  case vecUnpack =>
    obtain ⟨hcount, hmisses⟩ := h.elementCount r
    rw [hcount, hmisses]
    refine ⟨rfl, ?_, rfl, h.locals, rfl, rfl⟩
    rw [List.forall₂_map_left_iff, List.forall₂_map_right_iff]
    exact List.forall₂_same.2 fun i _ =>
      htop.map (f := fun t => t ++ "[" ++ toString i ++ "]") fun hs => by simp [hs]

/-- **Machines that run alike do so after every operation.** -/
theorem act (o : Operation) : (m.act o).Alike (n.act o) := by
  cases o with
  | declare d =>
    have hlocals := h.locals
    have hdeclared := h.declared
    refine { h with locals := ?_, declared := ?_ }
    · show (m.locals.bind _ _).2 = (n.locals.bind _ _).2
      rw [hlocals, hdeclared]
    · show (_, _) :: m.declared.filter _ = (_, _) :: n.declared.filter _
      rw [hdeclared]
  | step r =>
    have he := h.effect r
    refine ⟨h.header, h.limit, ?_, he.locals, ?_, h.declared, ?_, ?_⟩
    · show List.Forall₂ Akin ((m.effect r).pushes.reverse ++ m.stack.drop _)
        ((n.effect r).pushes.reverse ++ n.stack.drop _)
      rw [he.pops]
      exact List.rel_append (List.forall₂_reverse_iff.2 he.pushes) (List.forall₂_drop _ h.stack)
    · show (m.effect r).assigned.toList ++ m.assigned = (n.effect r).assigned.toList ++ n.assigned
      rw [he.assigned, h.assigned]
    · show (m.effect r).skipped.toList ++ m.skipped = (n.effect r).skipped.toList ++ n.skipped
      rw [he.skipped, h.skipped]
    · show m.unresolved + ((m.effect r).pops - m.stack.length) + (m.effect r).misses =
        n.unresolved + ((n.effect r).pops - n.stack.length) + (n.effect r).misses
      rw [he.pops, he.misses, h.unresolved, h.stack.length_eq]

end Alike

theorem Alike.actAll (h : m.Alike n) (os : List Operation) : (m.actAll os).Alike (n.actAll os) := by
  induction os generalizing m n with
  | nil => exact h
  | cons o os ih => exact ih (h.act o)

/-- Under options with the same limit on vectors, runs are alike from the start. -/
theorem alike_start (h : FunctionHeader) {o o' : MachineOptions}
    (hlimit : o.maxVectorElements = o'.maxVectorElements) :
    (start h o).Alike (start h o') := ⟨rfl, hlimit, .nil, rfl, rfl, rfl, rfl, rfl⟩

theorem isSome_branchComment (m : Machine) (text : String) :
    (m.branchComment text).isSome = m.options.emitBranchComments := by
  unfold branchComment
  cases m.options.emitBranchComments <;> rfl

/-- Whether an instruction writes a statement depends on the comments on branches alone. -/
theorem Alike.isSome_statement (h : m.Alike n)
    (hcomments : m.options.emitBranchComments = n.options.emitBranchComments) (r : Instruction) :
    (m.effect r).statement.isSome = (n.effect r).statement.isSome := by
  cases hop : r.opcode
  case call =>
    cases hf : callee? r with
    | some f =>
      rw [m.effect_call hop hf, n.effect_call hop hf]
      unfold Machine.callEffect
      dsimp only
      split <;> rfl
    | none => rw [m.effect_unresolvedCall hop hf, n.effect_unresolvedCall hop hf]
  all_goals rw [Machine.effect, Machine.effect, hop]
  all_goals dsimp only
  case ret =>
    unfold Machine.returnEffect
    rw [h.header]
    split <;> rfl
  case pop =>
    -- a placeholder is not written, but nothing else is akin to one
    simp only [(h.operand 0).eq_placeholder_iff]
    split <;> rfl
  case brTrue | brFalse | branch => rw [isSome_branchComment, isSome_branchComment, hcomments]
  all_goals rfl

/-! ## Statements and the instructions that write them -/

/-- The statements that instructions write, each with its instruction. -/
def ledger (m : Machine) : List Instruction → List (Instruction × String)
  | [] => []
  | r :: rs => (m.effect r).statement.toList.map (r, ·) ++ (m.step r).ledger rs

theorem statements_foldl_step (m : Machine) (rs : List Instruction) :
    (rs.foldl step m).statements = m.statements ++ (m.ledger rs).map (·.2) := by
  induction rs generalizing m with
  | nil => exact (List.append_nil _).symm
  | cons r rs ih =>
    rw [List.foldl_cons, ih, statements_step, ledger, List.map_append, List.map_map,
      List.append_assoc]
    congr 2
    exact (List.map_id _).symm

/-- Runs that are alike write as many statements, if both comment on branches or neither does. -/
theorem Alike.length_ledger (h : m.Alike n)
    (hcomments : m.options.emitBranchComments = n.options.emitBranchComments)
    (rs : List Instruction) : (m.ledger rs).length = (n.ledger rs).length := by
  induction rs generalizing m n with
  | nil => rfl
  | cons r rs ih =>
    have hstep : (m.step r).Alike (n.step r) := h.act (.step r)
    rw [ledger, ledger, List.length_append, List.length_append, ih hstep hcomments, List.length_map,
      List.length_map, Option.length_toList, Option.length_toList, h.isSome_statement hcomments r]

/-! ## One option changed -/

/-- A machine under other options, with what it has written under them. -/
def under (m : Machine) (o : MachineOptions) (emitted : List String) : Machine :=
  { m with options := o, emitted }

theorem foldl_declare_start (h : FunctionHeader) (o o' : MachineOptions) (ds : List SlotDecl) :
    ds.foldl declare (start h o') = (ds.foldl declare (start h o)).under o' [] := by
  have key : ∀ m : Machine, ds.foldl declare (m.under o' []) =
      (ds.foldl declare m).under o' [] := by
    induction ds with
    | nil => exact fun _ => rfl
    | cons d ds ih => exact fun m => ih (m.declare d)
  exact key (start h o)

/-- Without comments on branches, an instruction does what it does with them, except that a
branch writes nothing. -/
theorem effect_uncommented (m : Machine) (emitted : List String) (r : Instruction) :
    (m.under { m.options with emitBranchComments := false } emitted).effect r =
      if r.opcode.isBranch then { m.effect r with statement := none } else m.effect r := by
  unfold effect
  cases r.opcode <;> rfl

theorem ledger_uncommented (m : Machine) (emitted : List String) (rs : List Instruction) :
    (m.under { m.options with emitBranchComments := false } emitted).ledger rs =
      (m.ledger rs).filter fun w => !w.1.opcode.isBranch := by
  induction rs generalizing m emitted with
  | nil => rfl
  | cons r rs ih =>
    have heffect := m.effect_uncommented emitted r
    have hstep : ∃ emitted',
        (m.under { m.options with emitBranchComments := false } emitted).step r =
          (m.step r).under { (m.step r).options with emitBranchComments := false } emitted' := by
      unfold step
      rw [heffect]
      split <;> exact ⟨_, rfl⟩
    obtain ⟨emitted', hstep⟩ := hstep
    rw [ledger, ledger, List.filter_append, heffect, hstep, ih (m.step r)]
    congr 1
    -- the statement of a branch is left out, and any other stays
    cases hbranch : r.opcode.isBranch <;> cases hwritten : (m.effect r).statement <;>
      simp [hbranch, hwritten]

theorem render_of_plain {f : Callee} (hf : f.typeArguments = []) (k k' : Bool) :
    f.render k = f.render k' := by
  unfold Callee.render
  simp [hf]

/-- An instruction that calls nothing with type arguments does the same whether these are kept or
not. -/
theorem effect_keeping (m : Machine) (k : Bool) (emitted : List String) {r : Instruction}
    (hr : r.opcode = .call → ∀ f, callee? r = some f → f.typeArguments = []) :
    (m.under { m.options with keepTypeArguments := k } emitted).effect r = m.effect r := by
  cases hop : r.opcode
  case call =>
    cases hf : callee? r with
    | some f =>
      rw [effect_call _ hop hf, effect_call _ hop hf]
      unfold callEffect
      rw [render_of_plain (hr hop f hf) _ m.options.keepTypeArguments]
      rfl
    | none =>
      rw [effect_unresolvedCall _ hop hf, effect_unresolvedCall _ hop hf]
      rfl
  all_goals
    rw [effect, effect, hop]
    rfl

theorem ledger_keeping (m : Machine) (k : Bool) (emitted : List String) {rs : List Instruction}
    (hrs : ∀ r ∈ rs, r.opcode = .call → ∀ f, callee? r = some f → f.typeArguments = []) :
    (m.under { m.options with keepTypeArguments := k } emitted).ledger rs = m.ledger rs := by
  induction rs generalizing m emitted with
  | nil => rfl
  | cons r rs ih =>
    have heffect := m.effect_keeping k emitted (hrs r List.mem_cons_self)
    have hstep : ∃ emitted', (m.under { m.options with keepTypeArguments := k } emitted).step r =
        (m.step r).under { (m.step r).options with keepTypeArguments := k } emitted' := by
      unfold step
      rw [heffect]
      exact ⟨_, rfl⟩
    obtain ⟨emitted', hstep⟩ := hstep
    rw [ledger, ledger, heffect, hstep, ih (m.step r) emitted' fun q hq =>
      hrs q (List.mem_cons_of_mem r hq)]

end Machine

/-! ## Whole runs -/

/-- The operations of a run over a body. -/
def Body.operations (b : Body) : List Operation := b.locals.map .declare ++ b.instructions.map .step

namespace Machine

theorem run_eq_actAll (m : Machine) (b : Body) : m.run b = m.actAll b.operations := by
  unfold run actAll Body.operations
  rw [List.foldl_append, List.foldl_map, List.foldl_map]
  rfl

/-- The statements that a run over a body writes, each with its instruction. -/
def writtenBy (h : FunctionHeader) (o : MachineOptions) (b : Body) : List (Instruction × String) :=
  (b.locals.foldl declare (start h o)).ledger b.instructions

theorem statements_interpret (h : FunctionHeader) (b : Body) (o : MachineOptions) :
    (interpret h b o).function.statements = (writtenBy h o b).map (·.2) := by
  have hdeclared : (b.locals.foldl declare (start h o)).statements = [] := by
    obtain ⟨t, declared, e⟩ := foldl_declare_eq b.locals (start h o)
    rw [e]
    rfl
  show ((start h o).run b).statements = _
  rw [run, statements_foldl_step, hdeclared, List.nil_append, writtenBy]

/-- Two machines have come equally far: nothing but texts differs between them. -/
structure Level (m n : Machine) : Prop where
  depth : m.stack.length = n.stack.length
  locals : m.locals = n.locals
  unresolved : m.unresolved = n.unresolved
  skipped : m.skipped = n.skipped

theorem Alike.level {m n : Machine} (h : m.Alike n) : m.Level n :=
  ⟨h.stack.length_eq, h.locals, h.unresolved, h.skipped⟩

theorem Alike.namedParameters {m n : Machine} (h : m.Alike n) :
    m.namedParameters = n.namedParameters := by
  unfold Machine.namedParameters
  rw [h.header, h.locals]

/-- **Options decide how a run is written down, and nothing else.** Under any two options with the
same limit on vectors, the machines are level after every operation of a run, and its results agree
in all but the statements. Without comments on branches, the statements are those with comments less
those that branches write. With type arguments or without, there are as many statements, and they
are the same if no call of the body has type arguments. -/
theorem interpret_options (h : FunctionHeader) (b : Body) (o o' : MachineOptions)
    (hlimit : o.maxVectorElements = o'.maxVectorElements) :
    (∀ k, ((start h o).actAll (b.operations.take k)).Level
      ((start h o').actAll (b.operations.take k))) ∧
    (interpret h b o).leftoverStack = (interpret h b o').leftoverStack ∧
    (interpret h b o).function.parameters = (interpret h b o').function.parameters ∧
    (interpret h b o).unresolvedOperands = (interpret h b o').unresolvedOperands ∧
    (interpret h b o).unknownOpcodes = (interpret h b o').unknownOpcodes ∧
    (∀ p, (interpret h b p).function.statements = (writtenBy h p b).map (·.2)) ∧
    (o' = { o with emitBranchComments := false } →
      writtenBy h o' b = (writtenBy h o b).filter fun w => !w.1.opcode.isBranch) ∧
    (o' = { o with keepTypeArguments := o'.keepTypeArguments } →
      (interpret h b o').function.statements.length = (interpret h b o).function.statements.length ∧
      ((∀ r ∈ b.instructions, r.opcode = .call → ∀ f, callee? r = some f → f.typeArguments = []) →
        (interpret h b o').function.statements = (interpret h b o).function.statements)) := by
  have hstart := alike_start h hlimit
  have hrun : ((start h o).run b).Alike ((start h o').run b) := by
    rw [run_eq_actAll, run_eq_actAll]
    exact hstart.actAll b.operations
  have hdeclared := foldl_declare_start h o o' b.locals
  have hoptions : (b.locals.foldl declare (start h o)).options = o :=
    (counters_foldl_declare _ _).2.2
  refine ⟨fun k => (hstart.actAll _).level, hrun.stack.length_eq, hrun.namedParameters,
    hrun.unresolved, congrArg List.reverse hrun.skipped, statements_interpret h b, ?_, ?_⟩
  · rintro rfl
    have := ledger_uncommented (b.locals.foldl declare (start h o)) [] b.instructions
    rw [hoptions, ← hdeclared] at this
    exact this
  · intro e
    have hcomments : o.emitBranchComments = o'.emitBranchComments := by rw [e]
    have halike : (b.locals.foldl declare (start h o)).Alike
        (b.locals.foldl declare (start h o')) := by
      have := hstart.actAll (b.locals.map .declare)
      unfold actAll at this
      rwa [List.foldl_map, List.foldl_map] at this
    refine ⟨?_, fun hplain => ?_⟩
    · rw [statements_interpret, statements_interpret, List.length_map, List.length_map,
        writtenBy, writtenBy]
      refine (halike.length_ledger ?_ b.instructions).symm
      rwa [hoptions, (counters_foldl_declare (start h o') b.locals).2.2]
    · have hsame :=
        ledger_keeping (b.locals.foldl declare (start h o)) o'.keepTypeArguments [] hplain
      rw [hoptions, ← e, ← hdeclared] at hsame
      rw [statements_interpret, statements_interpret, writtenBy, writtenBy, hsame]

/-- A function with a coin. -/
def sweepHeader : FunctionHeader where
  name := "sweep"
  parameters := [⟨"coin", "Coin<SUI>"⟩]

/-- Asks something about the coin and branches on the answer. -/
def sweepBody (question : String) : Body where
  locals := []
  instructions :=
    [⟨0, .copyLoc, none, some "Arg0: Coin<SUI>"⟩, ⟨1, .call, none, some question⟩,
      ⟨2, .not, none, none⟩, ⟨3, .brTrue, some "5", none⟩, ⟨4, .ret, none, none⟩]

/-- The comment is left out or changed, and the rest is as it was. -/
theorem interpret_options_sweep :
    let asked := sweepBody "coin::is_zero<SUI>(Coin<SUI>):bool"
    let plain := sweepBody "coin::is_zero(Coin<SUI>):bool"
    let silent : MachineOptions := { emitBranchComments := false }
    let kept : MachineOptions := { keepTypeArguments := true }
    (interpret sweepHeader asked {}).function.statements =
      ["// if (!(coin::is_zero(coin))) goto 5", "return;"] ∧
    (interpret sweepHeader asked kept).function.statements =
      ["// if (!(coin::is_zero<SUI>(coin))) goto 5", "return;"] ∧
    ((start sweepHeader {}).actAll (asked.operations.take 3)).Level
      ((start sweepHeader kept).actAll (asked.operations.take 3)) ∧
    writtenBy sweepHeader silent asked =
      (writtenBy sweepHeader {} asked).filter (fun w => !w.1.opcode.isBranch) ∧
    (interpret sweepHeader plain kept).function.statements =
      (interpret sweepHeader plain {}).function.statements := by
  intro asked plain silent kept
  obtain ⟨hlevel, -⟩ := interpret_options sweepHeader asked {} kept rfl
  obtain ⟨-, -, -, -, -, -, hsilent, -⟩ := interpret_options sweepHeader asked {} silent rfl
  obtain ⟨-, -, -, -, -, -, -, hkept⟩ := interpret_options sweepHeader plain {} kept rfl
  refine ⟨by decide +kernel, by decide +kernel, hlevel 3, hsilent rfl, (hkept rfl).2 ?_⟩
  decide +kernel

end Machine

end PseudoMove
