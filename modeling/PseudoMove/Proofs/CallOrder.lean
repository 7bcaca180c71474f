import PseudoMove.Proofs.StraightLine

/-!
# The order of calls

A call with one result is left on the stack as text and printed where it is used; other calls
are printed at once.  So calls may be printed in another order than that of their
instructions.  Here the fragments of a run are trees that know their calls (`Term`), and
statements are made of trees (`Sentence`).

* `sentences` — the statements of a run as trees, made along with the machine;
* `Ready.statements_foldl_step` — their texts are what the machine writes;
* `Fits.cases` — an instruction leaves one tree on the stack (`Parks`) or writes a statement
  (`Prints`);
* `calls_perm_and_eq_iff` — every call is printed once, and in order if and only if no statement
  with a call is written while a call lies below on the stack (`InTime`);
* `calls_swapped_note` — where that happens, the calls are swapped.

`InTime` is read off the instructions: it runs on a stack of marks, of which each says whether the
fragment in its place has a call in it.
-/

namespace PseudoMove

namespace CallOrder

open Fragment Text StraightLine

/-! ## Fragments as trees -/

/-- A call of a body: the position of its instruction and the function that it names. -/
structure CallSite where
  position : Nat
  callee : Callee
deriving DecidableEq, Repr

/-- A fragment: a text without calls, or a call of fragments. -/
inductive Term where
  | text (s : String)
  | call (site : CallSite) (args : List Term)

section Render

variable (keep : Bool)

mutual

/-- The text of a fragment. -/
def Term.render : Term → String
  | .text s => s
  | .call site args => site.callee.render keep ++ "(" ++ commaList (Term.renderAll args) ++ ")"

/-- The texts of fragments, in order. -/
def Term.renderAll : List Term → List String
  | [] => []
  | t :: ts => t.render :: Term.renderAll ts

end

theorem renderAll_eq_map (ts : List Term) : Term.renderAll keep ts = ts.map (Term.render keep) := by
  induction ts with
  | nil => rfl
  | cons t ts ih => exact congrArg (t.render keep :: ·) ih

end Render

mutual

/-- The calls of a fragment in the order of evaluation: those of the arguments from left
to right, then its own. -/
def Term.calls : Term → List CallSite
  | .text _ => []
  | .call site args => Term.callsAll args ++ [site]

/-- The calls of fragments from left to right. -/
def Term.callsAll : List Term → List CallSite
  | [] => []
  | t :: ts => t.calls ++ Term.callsAll ts

end

theorem callsAll_append (ts us : List Term) :
    Term.callsAll (ts ++ us) = Term.callsAll ts ++ Term.callsAll us := by
  induction ts with
  | nil => rfl
  | cons t ts ih => simp [Term.callsAll, ih]

theorem callsAll_text (names : List String) : Term.callsAll (names.map Term.text) = [] := by
  induction names with
  | nil => rfl
  | cons n names ih => exact ih

/-- Whether there is a call in a fragment. -/
def Term.hasCall (t : Term) : Bool := !t.calls.isEmpty

theorem any_hasCall (ts : List Term) : ts.any Term.hasCall = !(Term.callsAll ts).isEmpty := by
  induction ts with
  | nil => rfl
  | cons t ts ih =>
    rw [List.any_cons, ih, Term.callsAll, Term.hasCall]
    cases t.calls <;> rfl

/-- A fragment with a call is no placeholder. -/
theorem calls_of_render_eq_placeholder {keep : Bool} {t : Term} (h : t.render keep = placeholder) :
    t.calls = [] := by
  cases t with
  | text s => rfl
  | call site args =>
    refine absurd h (ne_placeholder (c := '(') ?_ (by decide))
    simp [Term.render]

/-! ## Statements as trees -/

/-- What a statement does with the values of its fragments: nothing but evaluate them, bind them to
new names, store them, discard them or return them. -/
inductive Form where
  | evaluate
  | bind (names : List String)
  | store (target : String)
  | discard
  | ret

/-- The text of a statement around the texts of its fragments. -/
def Form.write : Form → List String → String
  | .evaluate, ts => commaList ts ++ ";"
  | .bind names, ts => "let (" ++ commaList names ++ ") = " ++ commaList ts ++ ";"
  | .store target, ts => target ++ " = " ++ commaList ts ++ ";"
  | .discard, ts => "_ = " ++ commaList ts ++ ";"
  | .ret, ts => returnText ts

/-- A statement: its form and its fragments, which are evaluated from left to right. -/
structure Sentence where
  form : Form
  terms : List Term

/-- The text of a statement. -/
def Sentence.text (keep : Bool) (s : Sentence) : String :=
  s.form.write (s.terms.map (Term.render keep))

/-- The calls of a statement in the order of evaluation. -/
def Sentence.calls (s : Sentence) : List CallSite := Term.callsAll s.terms

/-! ## The run on trees -/

/-- The call that an instruction at a position makes. -/
def callSite? (position : Nat) (r : Instruction) : Option CallSite :=
  if r.opcode = .call then (callee? r).map (CallSite.mk position) else none

/-- The calls that instructions make, from a position on, in their order. -/
def callSitesFrom (position : Nat) (rs : List Instruction) : List CallSite :=
  (rs.zipIdx position).filterMap fun p => callSite? p.2 p.1

/-- The calls that instructions make, in their order. -/
def callSites (rs : List Instruction) : List CallSite := callSitesFrom 0 rs

/-- What an instruction makes of the fragments it takes: a call of them, or no more than they
are. -/
def used (position : Nat) (r : Instruction) (taken : List Term) : List Term :=
  match callSite? position r with
  | some site => [.call site taken]
  | none => taken

section Step

variable (m : Machine) (position : Nat) (st : List Term) (r : Instruction)

/-- The fragments that an instruction takes, the deepest first. -/
def taken : List Term := (st.take (m.effect r).pops).reverse

/-- The fragments that it leaves where they are. -/
def below : List Term := st.drop (m.effect r).pops

/-- What the statement does that an instruction writes, if it writes one. -/
def form? : Option Form :=
  match r.opcode with
  | .call =>
    match (m.effect r).pushes with
    | [] => some .evaluate
    | [_] => none
    | names => some (.bind names)
  | .stLoc =>
    let use := m.localUse r
    some (.store ((if use.slot.any fun s => s ∉ m.assigned then "let " else "") ++ use.name))
  | .pop => if m.operand 0 = placeholder then none else some .discard
  | .ret => some .ret
  | _ => none

/-- The statement that an instruction writes. -/
def sentence? : Option Sentence := (form? m r).map fun f => ⟨f, used position r (taken m st r)⟩

/-- The fragments on the stack after an instruction. A call with one result is one of them, and all
else that is pushed has no calls. -/
def after : List Term :=
  match r.opcode, (m.effect r).pushes with
  | .call, [_] => used position r (taken m st r) ++ below m st r
  | _, names => (names.map Term.text).reverse ++ below m st r

end Step

/-- The statements that instructions write from a machine on, with the fragments on its stack as
trees. -/
def sentencesFrom (m : Machine) (position : Nat) (st : List Term) : List Instruction → List Sentence
  | [] => []
  | r :: rs =>
    (sentence? m position st r).toList ++
      sentencesFrom (m.step r) (position + 1) (after m position st r) rs

/-- The statements that the run over a body writes. -/
def sentences (h : FunctionHeader) (b : Body) (options : MachineOptions) : List Sentence :=
  sentencesFrom (b.locals.foldl Machine.declare (.start h options)) 0 [] b.instructions

/-! ## Bodies -/

/-- The instructions that are considered: reads of locals, integers, calls of a known function,
stores, discards and returns. -/
def IsPlain (r : Instruction) : Bool :=
  match r.opcode with
  | .copyLoc | .moveLoc | .ldInt _ | .stLoc | .pop | .ret => true
  | .call => (callee? r).isSome
  | _ => false

/-- On a stack of some depth, no instruction takes what is not there, and the last leaves
nothing. -/
def Balanced (h : FunctionHeader) (limit : Nat) : Nat → List Instruction → Bool
  | depth, [] => depth == 0
  | depth, r :: rs =>
    let e := stackEffect h limit r
    e.pops ≤ depth && Balanced h limit (depth - e.pops + e.pushes) rs

/-- No statement with a call is written while there is a call below on the stack. The marks say
which fragments on the stack have a call. -/
def InTime (h : FunctionHeader) (limit : Nat) : List Bool → List Instruction → Bool
  | _, [] => true
  | marks, r :: rs =>
    let e := stackEffect h limit r
    let hasCall := r.opcode = .call || (marks.take e.pops).any id
    let below := marks.drop e.pops
    if e.pushes = 1 then InTime h limit (hasCall :: below) rs
    else !(hasCall && below.any id) && InTime h limit (List.replicate e.pushes false ++ below) rs

/-! ## One instruction -/

variable {m : Machine} {position : Nat} {st : List Term} {r : Instruction}

/-- The trees are those of the machine's stack, and all that an instruction takes is there. -/
structure Fits (m : Machine) (st : List Term) (r : Instruction) : Prop where
  plain : IsPlain r = true
  stack : m.stack = st.map (Term.render m.options.keepTypeArguments)
  enough : (m.effect r).pops ≤ st.length

theorem callsAll_used (taken : List Term) :
    Term.callsAll (used position r taken) =
      Term.callsAll taken ++ (callSite? position r).toList := by
  unfold used
  cases callSite? position r with
  | none => simp
  | some site => simp [Term.callsAll, Term.calls]

/-- The instruction leaves one fragment on the stack, which has the calls of those taken and its
own, and writes nothing. -/
structure Parks (m : Machine) (position : Nat) (st : List Term) (r : Instruction)
    (t : Term) : Prop where
  pushes : (m.effect r).pushes = [t.render m.options.keepTypeArguments]
  statement : (m.effect r).statement = none
  sentence : sentence? m position st r = none
  leaves : after m position st r = t :: below m st r
  calls : t.calls = Term.callsAll (taken m st r) ++ (callSite? position r).toList

/-- The instruction writes a statement with the calls of the fragments taken and its own, if there
are any, and leaves names on the stack. -/
structure Prints (m : Machine) (position : Nat) (st : List Term) (r : Instruction)
    (names : List String) : Prop where
  pushes : (m.effect r).pushes = names
  length : names.length ≠ 1
  statement : (m.effect r).statement =
    (sentence? m position st r).map (Sentence.text m.options.keepTypeArguments)
  leaves : after m position st r = (names.map Term.text).reverse ++ below m st r
  calls : (sentence? m position st r).toList.flatMap Sentence.calls =
    Term.callsAll (taken m st r) ++ (callSite? position r).toList

/-- An instruction whose statement has a form: that statement is printed. -/
theorem prints_of_form {f : Form} {names : List String} (hf : form? m r = some f)
    (hpushes : (m.effect r).pushes = names) (hlength : names.length ≠ 1)
    (hstatement : (m.effect r).statement = some
      (f.write ((used position r (taken m st r)).map (Term.render m.options.keepTypeArguments)))) :
    Prints m position st r names where
  pushes := hpushes
  length := hlength
  statement := by
    rw [hstatement, sentence?, hf]
    rfl
  leaves := by
    unfold after
    split
    · next hone =>
      rw [← hpushes, hone] at hlength
      exact absurd rfl hlength
    · rw [hpushes]
  calls := by
    rw [sentence?, hf, ← callsAll_used]
    simp [Sentence.calls]

/-- What a call of a known function pushes and writes. -/
theorem callEffect_cases (m : Machine) (f : Callee) :
    let call := f.render m.options.keepTypeArguments ++ "(" ++ commaList (m.operands f.arity) ++ ")"
    let e := m.callEffect f
    e.pops = f.arity ∧
      ((e.pushes = [] ∧ e.statement = some (call ++ ";")) ∨
        (e.pushes = [call] ∧ e.statement = none) ∨
        ∃ a b names, e.pushes = a :: b :: names ∧
          e.statement =
            some ("let (" ++ commaList (a :: b :: names) ++ ") = " ++ call ++ ";")) := by
  unfold Machine.callEffect
  dsimp only
  split
  · exact ⟨rfl, .inl ⟨rfl, rfl⟩⟩
  · exact ⟨rfl, .inr (.inl ⟨rfl, rfl⟩)⟩
  · next n h0 h1 =>
    refine ⟨rfl, .inr (.inr ?_)⟩
    have hlength := Machine.length_temporaries m.locals "result" f.resultCount
    match hnames : (m.locals.temporaries "result" f.resultCount).1, hlength with
    | [], hl => exact absurd hl.symm h0
    | [_], hl => exact absurd hl.symm h1
    | a :: b :: names, _ => exact ⟨a, b, names, rfl, rfl⟩

namespace Fits

theorem stack_eq (h : Fits m st r) :
    m.stack = ((taken m st r).map (Term.render m.options.keepTypeArguments)).reverse ++
      (below m st r).map (Term.render m.options.keepTypeArguments) := by
  rw [h.stack, taken, below, List.map_reverse, List.reverse_reverse, ← List.map_append,
    List.take_append_drop]

theorem length_taken (h : Fits m st r) : (taken m st r).length = (m.effect r).pops := by
  rw [taken, List.length_reverse, List.length_take, Nat.min_eq_left h.enough]

theorem operands_eq (h : Fits m st r) :
    m.operands (m.effect r).pops =
      (taken m st r).map (Term.render m.options.keepTypeArguments) := by
  have := operands_of_stack h.stack_eq
  rwa [List.length_map, h.length_taken] at this

theorem operand_eq (h : Fits m st r) (hpops : (m.effect r).pops = 1) :
    ∃ t, taken m st r = [t] ∧ m.operand 0 = t.render m.options.keepTypeArguments := by
  obtain ⟨t, ht⟩ := List.length_eq_one_iff.1 (h.length_taken.trans hpops)
  refine ⟨t, ht, ?_⟩
  rw [Machine.operand, h.stack_eq, ht]
  rfl

/-- A call that is considered names a function. -/
theorem callSite (h : Fits m st r) (position : Nat) (hop : r.opcode = .call) :
    ∃ f, callee? r = some f ∧ callSite? position r = some ⟨position, f⟩ := by
  have hplain := h.plain
  rw [IsPlain, hop] at hplain
  obtain ⟨f, hf⟩ := Option.isSome_iff_exists.1 hplain
  refine ⟨f, hf, ?_⟩
  rw [callSite?, if_pos hop, hf]
  rfl

/-- What a call does to the trees. -/
theorem call_cases (h : Fits m st r) (hop : r.opcode = .call) :
    (∃ t, Parks m position st r t) ∨ ∃ names, Prints m position st r names := by
  obtain ⟨f, hf, hsite⟩ := h.callSite position hop
  have heffect := m.effect_call hop hf
  obtain ⟨hpops, hcases⟩ := callEffect_cases m f
  have hused : used position r (taken m st r) = [.call ⟨position, f⟩ (taken m st r)] := by
    rw [used, hsite]
  have hcall : f.render m.options.keepTypeArguments ++ "(" ++ commaList (m.operands f.arity) ++
      ")" = Term.render m.options.keepTypeArguments (.call ⟨position, f⟩ (taken m st r)) := by
    rw [← hpops, ← heffect, h.operands_eq, Term.render, renderAll_eq_map]
  rw [hcall, ← heffect] at hcases
  rcases hcases with ⟨hpushes, hstatement⟩ | ⟨hpushes, hstatement⟩ |
    ⟨a, b, names, hpushes, hstatement⟩
  · have hform : form? m r = some .evaluate := by rw [form?, hop, hpushes]
    refine .inr ⟨[], prints_of_form hform hpushes (by decide) ?_⟩
    rw [hstatement, hused]
    simp [Form.write, commaList]
  · refine .inl ⟨.call ⟨position, f⟩ (taken m st r), hpushes, hstatement, ?_, ?_, ?_⟩
    · rw [sentence?, form?, hop, hpushes]
      rfl
    · rw [after, hop, hpushes, hused]
      rfl
    · rw [hsite]
      rfl
  · have hform : form? m r = some (.bind (a :: b :: names)) := by rw [form?, hop, hpushes]
    refine .inr ⟨a :: b :: names, prints_of_form hform hpushes (by simp) ?_⟩
    rw [hstatement, hused]
    simp [Form.write, commaList]

/-- A text that an instruction pushes without taking anything is left on the stack, and has no
calls. -/
theorem parks_text {s : String} {misses : Nat} {t : LocalNames}
    (heffect : m.effect r = { pushes := [s], misses, locals := t }) (hform : form? m r = none)
    (hop : r.opcode ≠ .call) : Parks m position st r (.text s) where
  pushes := by
    rw [heffect]
    rfl
  statement := by rw [heffect]
  sentence := by
    rw [sentence?, hform]
    rfl
  leaves := by
    unfold after
    split
    · next hcall _ => exact absurd hcall hop
    · rw [heffect]
      rfl
  calls := by
    rw [taken, heffect, callSite?, if_neg hop]
    rfl

/-- A statement that takes one fragment. -/
theorem prints_one (h : Fits m st r) {f : Form} (hf : form? m r = some f) (hop : r.opcode ≠ .call)
    (hpops : (m.effect r).pops = 1) (hpushes : (m.effect r).pushes = [])
    (hstatement : (m.effect r).statement = some (f.write [m.operand 0])) :
    Prints m position st r [] := by
  obtain ⟨t, ht, hoperand⟩ := h.operand_eq hpops
  have hused : used position r (taken m st r) = [t] := by
    rw [used, callSite?, if_neg hop]
    exact ht
  refine prints_of_form hf hpushes (by decide) ?_
  rw [hstatement, hused, hoperand]
  rfl

/-- A discard writes a statement, or nothing for a placeholder, which has no calls. -/
theorem pop_prints (h : Fits m st r) (hop : r.opcode = .pop) : Prints m position st r [] := by
  have hcall : r.opcode ≠ .call := by simp [hop]
  have hpops : (m.effect r).pops = 1 := by rw [Machine.effect, hop]
  have hpushes : (m.effect r).pushes = [] := by rw [Machine.effect, hop]
  by_cases hv : m.operand 0 = placeholder
  · have hform : form? m r = none := by rw [form?, hop, if_pos hv]
    obtain ⟨t, ht, hoperand⟩ := h.operand_eq hpops
    have hcalls : t.calls = [] := calls_of_render_eq_placeholder (hoperand.symm.trans hv)
    refine ⟨hpushes, by decide, ?_, ?_, ?_⟩
    · rw [sentence?, hform, Machine.effect, hop]
      dsimp only
      rw [if_pos hv]
      rfl
    · rw [after, hop, hpushes]
    · rw [sentence?, hform, ht, callSite?, if_neg hcall]
      simp [Term.callsAll, hcalls]
  · have hform : form? m r = some .discard := by rw [form?, hop, if_neg hv]
    refine h.prints_one hform hcall hpops hpushes ?_
    rw [Machine.effect, hop]
    dsimp only
    rw [if_neg hv]
    simp [Form.write, commaList]

/-- **What an instruction does to the trees**: it leaves one of them with all calls, or writes
a statement with them. -/
theorem cases (h : Fits m st r) (position : Nat) :
    (∃ t, Parks m position st r t) ∨ ∃ names, Prints m position st r names := by
  have hplain := h.plain
  cases hop : r.opcode
  all_goals simp only [IsPlain, hop, Bool.false_eq_true] at hplain
  case call => exact h.call_cases hop
  case copyLoc | moveLoc =>
    have heffect : m.effect r = m.readEffect r "" := by rw [Machine.effect, hop]
    exact .inl ⟨_, parks_text heffect (by rw [form?, hop]) (by simp [hop])⟩
  case ldInt ty =>
    have heffect : m.effect r =
        { pushes := [Machine.orPlaceholder r.argument], misses := Machine.missing r.argument,
          locals := m.locals } := by
      rw [Machine.effect, hop]
    exact .inl ⟨_, parks_text heffect (by rw [form?, hop]) (by simp [hop])⟩
  case stLoc =>
    have heffect : m.effect r = m.storeEffect r := by rw [Machine.effect, hop]
    have hform : ∃ target, form? m r = some (.store target) ∧
        (m.effect r).statement = some ((Form.store target).write [m.operand 0]) := by
      refine ⟨_, by rw [form?, hop], ?_⟩
      rw [heffect]
      simp [Machine.storeEffect, Form.write, commaList]
    obtain ⟨target, hform, hstatement⟩ := hform
    refine .inr ⟨[], h.prints_one hform (by simp [hop]) ?_ ?_ hstatement⟩
    · rw [heffect]
      rfl
    · rw [heffect]
      rfl
  case pop => exact .inr ⟨[], h.pop_prints hop⟩
  case ret =>
    have heffect : m.effect r = m.returnEffect := by rw [Machine.effect, hop]
    have hform : form? m r = some .ret := by rw [form?, hop]
    have hcount : TypeText.resultCount m.header.returnType.toList =
        ((taken m st r).map (Term.render m.options.keepTypeArguments)).length := by
      rw [List.length_map, h.length_taken, heffect, m.counts_returnEffect.pops]
    have hreturn := returnEffect_of_stack h.stack_eq hcount
    have hused : used position r (taken m st r) = taken m st r := by
      rw [used, callSite?, if_neg (by simp [hop])]
    refine .inr ⟨[], prints_of_form hform ?_ (by decide) ?_⟩
    · rw [heffect, hreturn]
    · rw [heffect, hreturn, hused]
      rfl

end Fits

/-- The trees go along with the machine. -/
theorem step_trees (h : Fits m st r) (position : Nat) :
    (m.effect r).statement =
      (sentence? m position st r).map (Sentence.text m.options.keepTypeArguments) ∧
      (m.step r).stack = (after m position st r).map (Term.render m.options.keepTypeArguments) := by
  have hstack : (m.step r).stack = (m.effect r).pushes.reverse ++
      (below m st r).map (Term.render m.options.keepTypeArguments) := by
    show (m.effect r).pushes.reverse ++ m.stack.drop (m.effect r).pops = _
    rw [h.stack, below, List.map_drop]
  rcases h.cases position with ⟨t, ht⟩ | ⟨names, hn⟩
  · refine ⟨by rw [ht.statement, ht.sentence]; rfl, ?_⟩
    rw [hstack, ht.leaves, ht.pushes]
    rfl
  · refine ⟨hn.statement, ?_⟩
    rw [hstack, hn.leaves, hn.pushes]
    simp [Function.comp_def, Term.render]

/-! ## The calls on the stack -/

/-- The calls of the fragments on a stack, the deepest first. -/
def pending (st : List Term) : List CallSite := Term.callsAll st.reverse

theorem pending_cons (t : Term) (st : List Term) : pending (t :: st) = pending st ++ t.calls := by
  rw [pending, List.reverse_cons, callsAll_append]
  simp [pending, Term.callsAll]

theorem pending_append_names (names : List String) (st : List Term) :
    pending ((names.map Term.text).reverse ++ st) = pending st := by
  rw [pending, List.reverse_append, List.reverse_reverse, callsAll_append, callsAll_text,
    List.append_nil, pending]

theorem pending_eq (m : Machine) (st : List Term) (r : Instruction) :
    pending st = pending (below m st r) ++ Term.callsAll (taken m st r) := by
  rw [pending, pending, below, taken, ← callsAll_append, ← List.reverse_append,
    List.take_append_drop]

theorem any_marks (st : List Term) : (st.map Term.hasCall).any id = !(pending st).isEmpty := by
  rw [pending, ← any_hasCall, List.any_reverse, List.any_map]
  rfl

/-- Whether an instruction has a call to write, by its marks. -/
theorem hasCall_marks (h : Fits m st r) (position : Nat) :
    (decide (r.opcode = .call) || ((st.map Term.hasCall).take (m.effect r).pops).any id) =
      !(Term.callsAll (taken m st r) ++ (callSite? position r).toList).isEmpty := by
  have htaken : ((st.map Term.hasCall).take (m.effect r).pops).any id =
      !(Term.callsAll (taken m st r)).isEmpty := by
    rw [← List.map_take, any_marks]
    rfl
  have hsite : decide (r.opcode = .call) = !(callSite? position r).toList.isEmpty := by
    by_cases hop : r.opcode = .call
    · obtain ⟨f, -, hf⟩ := h.callSite position hop
      rw [hf, decide_eq_true hop]
      rfl
    · rw [callSite?, if_neg hop, decide_eq_false hop]
      rfl
  rw [htaken, hsite]
  cases Term.callsAll (taken m st r) <;> cases (callSite? position r).toList <;> rfl

/-- A fragment that an instruction parks has the calls that were pending above those below, and its
own. -/
theorem Parks.pending_after {t : Term} (h : Parks m position st r t) :
    pending (after m position st r) = pending st ++ (callSite? position r).toList := by
  rw [h.leaves, pending_cons, h.calls, pending_eq m st r, List.append_assoc]

theorem Parks.marks_after {t : Term} (h : Parks m position st r t) :
    (after m position st r).map Term.hasCall =
      (!(Term.callsAll (taken m st r) ++ (callSite? position r).toList).isEmpty) ::
        (below m st r).map Term.hasCall := by
  rw [h.leaves, ← h.calls]
  rfl

/-- Where a statement is written, only the calls below are still pending. -/
theorem Prints.pending_after {names : List String} (h : Prints m position st r names) :
    pending (after m position st r) = pending (below m st r) := by
  rw [h.leaves, pending_append_names]

theorem Prints.marks_after {names : List String} (h : Prints m position st r names) :
    (after m position st r).map Term.hasCall =
      List.replicate (m.effect r).pushes.length false ++ (below m st r).map Term.hasCall := by
  rw [h.leaves, h.pushes, List.map_append, List.map_reverse, List.map_map]
  simp [Function.comp_def, Term.hasCall, Term.calls, List.map_const']

/-! ## Runs -/

theorem callSitesFrom_cons (position : Nat) (r : Instruction) (rs : List Instruction) :
    callSitesFrom position (r :: rs) =
      (callSite? position r).toList ++ callSitesFrom (position + 1) rs := by
  rw [callSitesFrom, List.zipIdx_cons, List.filterMap_cons]
  dsimp only
  cases callSite? position r <;> rfl

/-- The positions of calls increase, so that no two are the same. -/
theorem pairwise_callSitesFrom (position : Nat) (rs : List Instruction) :
    (callSitesFrom position rs).Pairwise (fun a b => a.position < b.position) ∧
      ∀ c ∈ callSitesFrom position rs, position ≤ c.position := by
  induction rs generalizing position with
  | nil => exact ⟨List.Pairwise.nil, fun c hc => absurd hc List.not_mem_nil⟩
  | cons r rs ih =>
    obtain ⟨hpairwise, hle⟩ := ih (position + 1)
    have hposition : ∀ c ∈ callSite? position r, c.position = position := by
      intro c hc
      unfold callSite? at hc
      split at hc
      · obtain ⟨f, -, rfl⟩ := Option.map_eq_some_iff.1 hc
        rfl
      · simp at hc
    rw [callSitesFrom_cons]
    cases hsite : callSite? position r with
    | none => exact ⟨hpairwise, fun c hc => (Nat.le_succ _).trans (hle c hc)⟩
    | some site =>
      have hsite := hposition site hsite
      refine ⟨List.pairwise_cons.2 ⟨fun c hc => ?_, hpairwise⟩, fun c hc => ?_⟩
      · rw [hsite]
        exact hle c hc
      · rcases List.mem_cons.1 hc with rfl | hc
        · exact hsite.ge
        · exact (Nat.le_succ _).trans (hle c hc)

/-- The instructions can be run on the trees of a machine's stack. -/
structure Ready (m : Machine) (st : List Term) (rs : List Instruction) : Prop where
  plain : ∀ r ∈ rs, IsPlain r = true
  stack : m.stack = st.map (Term.render m.options.keepTypeArguments)
  balanced : Balanced m.header m.options.maxVectorElements st.length rs = true

namespace Ready

variable {rs : List Instruction}

/-- What is balanced is so in terms of the effects in any state. -/
theorem depth (h : Ready m st (r :: rs)) :
    (m.effect r).pops ≤ st.length ∧ Balanced m.header m.options.maxVectorElements
      ((m.effect r).pushes.length + (st.length - (m.effect r).pops)) rs = true := by
  have hbalanced := h.balanced
  rw [Balanced, Bool.and_eq_true, decide_eq_true_eq] at hbalanced
  rwa [(m.counts_effect r).pops, (m.counts_effect r).pushes, Nat.add_comm]

theorem fits (h : Ready m st (r :: rs)) : Fits m st r where
  plain := h.plain r List.mem_cons_self
  stack := h.stack
  enough := h.depth.1

theorem step (h : Ready m st (r :: rs)) (position : Nat) :
    Ready (m.step r) (after m position st r) rs where
  plain q hq := h.plain q (List.mem_cons_of_mem r hq)
  stack := (step_trees h.fits position).2
  balanced := by
    have hlength : (after m position st r).length =
        (m.effect r).pushes.length + (st.length - (m.effect r).pops) := by
      have hstack := congrArg List.length (step_trees h.fits position).2
      rw [List.length_map] at hstack
      rw [← hstack]
      show ((m.effect r).pushes.reverse ++ m.stack.drop (m.effect r).pops).length = _
      rw [List.length_append, List.length_reverse, List.length_drop, h.stack, List.length_map]
    rw [hlength]
    exact h.depth.2

/-- The texts of the trees are what the machine writes. -/
theorem statements_foldl_step (h : Ready m st rs) (position : Nat) :
    (rs.foldl Machine.step m).statements =
      m.statements ++
        (sentencesFrom m position st rs).map (Sentence.text m.options.keepTypeArguments) := by
  induction rs generalizing m position st with
  | nil => exact (List.append_nil _).symm
  | cons r rs ih =>
    rw [List.foldl_cons, ih (h.step position) (position + 1), Machine.statements_step,
      (step_trees h.fits position).1, sentencesFrom, List.map_append, List.append_assoc]
    cases sentence? m position st r <;> rfl

end Ready

/-- Lists without repetition that change places do not make the same list, unless one of them is
empty. -/
theorem append_eq_swap_iff {α : Type} {u b rest cs : List α} (hnodup : (b ++ (u ++ cs)).Nodup) :
    u ++ rest = b ++ (u ++ cs) ↔ (u = [] ∨ b = []) ∧ rest = b ++ cs := by
  match u, b with
  | [], b => simp
  | u, [] => simp
  | x :: u, y :: b =>
    refine ⟨fun h => ?_, fun h => by simp at h⟩
    obtain ⟨rfl, -⟩ := List.cons.inj h
    simp at hnodup

/-- **The calls of a run.** The statements written from a machine on have the calls on its
stack and those of the instructions, each once, and they have them in this order if and only if
all are written in time. -/
theorem Ready.calls {rs : List Instruction} (h : Ready m st rs)
    (hnodup : (pending st ++ callSitesFrom position rs).Nodup) :
    let written := (sentencesFrom m position st rs).flatMap Sentence.calls
    written.Perm (pending st ++ callSitesFrom position rs) ∧
      (written = pending st ++ callSitesFrom position rs ↔
        InTime m.header m.options.maxVectorElements (st.map Term.hasCall) rs = true) := by
  induction rs generalizing m position st with
  | nil =>
    have hbalanced := h.balanced
    rw [Balanced, beq_iff_eq] at hbalanced
    obtain rfl := List.length_eq_zero_iff.1 hbalanced
    exact ⟨.refl _, by simp [sentencesFrom, pending, callSitesFrom, Term.callsAll, InTime]⟩
  | cons r rs ih =>
    have hstep := h.step position
    have hmarks := hasCall_marks h.fits position
    have hbelow : (st.map Term.hasCall).drop (m.effect r).pops = (below m st r).map Term.hasCall :=
      List.map_drop.symm
    rw [callSitesFrom_cons] at hnodup ⊢
    rw [sentencesFrom, List.flatMap_append, InTime, ← (m.counts_effect r).pops,
      ← (m.counts_effect r).pushes]
    dsimp only
    rw [hmarks, hbelow]
    rcases h.fits.cases position with ⟨t, ht⟩ | ⟨names, hn⟩
    · have hrest := ih hstep (by rwa [ht.pending_after, List.append_assoc])
      rw [ht.pending_after, ht.marks_after, List.append_assoc] at hrest
      rw [if_pos (by rw [ht.pushes]; rfl), ht.sentence]
      exact hrest
    · -- what is written now comes before the calls that lie below
      have hsplit :
          pending st ++ ((callSite? position r).toList ++ callSitesFrom (position + 1) rs) =
            pending (below m st r) ++
              ((Term.callsAll (taken m st r) ++ (callSite? position r).toList) ++
                callSitesFrom (position + 1) rs) := by
        rw [pending_eq m st r]
        simp only [List.append_assoc]
      rw [hsplit] at hnodup ⊢
      rw [if_neg (by rw [hn.pushes]; exact hn.length), hn.calls]
      generalize Term.callsAll (taken m st r) ++ (callSite? position r).toList = now at hnodup ⊢
      have hrest := ih hstep (by
        rw [hn.pending_after]
        exact hnodup.sublist ((List.Sublist.refl _).append (List.sublist_append_right now _)))
      rw [hn.pending_after, hn.marks_after] at hrest
      have hfirst : (!(!now.isEmpty && ((below m st r).map Term.hasCall).any id)) = true ↔
          now = [] ∨ pending (below m st r) = [] := by
        rw [any_marks]
        cases now <;> cases pending (below m st r) <;> simp
      refine ⟨(hrest.1.append_left now).trans (List.perm_append_comm_assoc _ _ _), ?_⟩
      rw [append_eq_swap_iff hnodup, Bool.and_eq_true, hfirst, hrest.2]
      exact Iff.rfl

/-! ## Functions -/

/-- **Every call is printed once, and in order if and only if it is in time.** For every
function and every balanced body of plain instructions, the statements of the interpretation are
the texts of `sentences`; these have every call of the body once, and have the calls in the
order of their instructions if and only if no statement with a call is written while a fragment
with a call lies below on the stack. -/
theorem calls_perm_and_eq_iff (h : FunctionHeader) (options : MachineOptions)
    (decls : List SlotDecl) (rs : List Instruction) (hplain : ∀ r ∈ rs, IsPlain r = true)
    (hbalanced : Balanced h options.maxVectorElements 0 rs = true) :
    let written := sentences h ⟨decls, rs⟩ options
    (interpret h ⟨decls, rs⟩ options).function.statements =
        written.map (Sentence.text options.keepTypeArguments) ∧
      (written.flatMap Sentence.calls).Perm (callSites rs) ∧
      (written.flatMap Sentence.calls = callSites rs ↔
        InTime h options.maxVectorElements [] rs = true) := by
  intro written
  obtain ⟨t, declared, hd⟩ := Machine.foldl_declare_eq decls (Machine.start h options)
  have hready : Ready { Machine.start h options with locals := t, declared } [] rs :=
    ⟨hplain, rfl, hbalanced⟩
  have hnodup : (pending [] ++ callSitesFrom 0 rs).Nodup :=
    (pairwise_callSitesFrom 0 rs).1.imp fun hlt he => absurd (congrArg CallSite.position he) hlt.ne
  have hwritten : written =
      sentencesFrom { Machine.start h options with locals := t, declared } 0 [] rs := by
    rw [← hd]
    rfl
  have hstatements : (interpret h ⟨decls, rs⟩ options).function.statements =
      (rs.foldl Machine.step
        { Machine.start h options with locals := t, declared }).statements := by
    rw [← hd]
    rfl
  rw [hwritten, hstatements, hready.statements_foldl_step 0]
  exact ⟨rfl, hready.calls hnodup⟩

/-! ### Two bodies -/

/-- A function without parameters. -/
def quoteHeader : FunctionHeader where
  name := "quote"

/-- A call of a function that gives a price. -/
def priceCall (position : Nat) : Instruction :=
  ⟨position, .call, none, some "0x2::oracle::price():u64"⟩

/-- A price that is read, kept and noted. -/
def quoteBody : List Instruction :=
  [priceCall 0, ⟨1, .stLoc, none, some "loc0: u64"⟩, ⟨2, .moveLoc, none, some "loc0: u64"⟩,
    ⟨3, .call, none, some "0x2::log::note(u64):()"⟩, ⟨4, .ret, none, none⟩]

/-- A price that is read, and kept only after another call. -/
def noteBody : List Instruction :=
  [priceCall 0, ⟨1, .call, none, some "0x2::log::note():()"⟩, ⟨2, .stLoc, none, some "loc0: u64"⟩,
    ⟨3, .ret, none, none⟩]

/-- The calls of the first body are printed in order. -/
theorem calls_inOrder_quote :
    (∀ r ∈ quoteBody, IsPlain r = true) ∧ Balanced quoteHeader 100000 0 quoteBody = true ∧
    InTime quoteHeader 100000 [] quoteBody = true ∧
    (interpret quoteHeader ⟨[], quoteBody⟩ {}).function.statements =
      ["let amount = oracle::price();", "log::note(amount);", "return;"] ∧
    ((sentences quoteHeader ⟨[], quoteBody⟩ {}).flatMap Sentence.calls).map (·.position) =
      [0, 3] := by
  have hplain : ∀ r ∈ quoteBody, IsPlain r = true := by decide +kernel
  have hbalanced : Balanced quoteHeader 100000 0 quoteBody = true := by decide +kernel
  have htime : InTime quoteHeader 100000 [] quoteBody = true := by decide +kernel
  obtain ⟨-, -, horder⟩ := calls_perm_and_eq_iff quoteHeader {} [] quoteBody hplain hbalanced
  refine ⟨hplain, hbalanced, htime, by decide +kernel, ?_⟩
  rw [horder.2 htime]
  decide +kernel

/-- **The calls of the second body are swapped**: the price is read first, and printed last. -/
theorem calls_swapped_note :
    (∀ r ∈ noteBody, IsPlain r = true) ∧ Balanced quoteHeader 100000 0 noteBody = true ∧
    (interpret quoteHeader ⟨[], noteBody⟩ {}).function.statements =
      ["log::note();", "let amount = oracle::price();", "return;"] ∧
    (callSites noteBody).map (·.position) = [0, 1] ∧
    ((sentences quoteHeader ⟨[], noteBody⟩ {}).flatMap Sentence.calls).map (·.position) =
      [1, 0] := by
  decide +kernel

end CallOrder

end PseudoMove
