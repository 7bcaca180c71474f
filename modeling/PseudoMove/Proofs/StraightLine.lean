import PseudoMove.Proofs.StackEffect
import PseudoMove.Proofs.NameTable
import PseudoMove.Proofs.SlotLabel
import Mathlib.Data.List.Forall2

/-!
# Straight-line code read back

Expressions and statements of a source program, the instructions that a compiler in postfix order
makes from them, and the text that they have.  The run over such a body writes the program back.

* `Expr`, `Stmt` — the source; `Expr.text`, `Stmt.text`, `lines` — its text;
* `Codes`, `Stmt.Codes` — which instructions are the code of expressions and of a statement;
* `Codes.pushes` — what the code of expressions pushes are their texts, and below
  them the stack is as it was;
* `Stmt.Codes.writes` — the code of a statement writes one line and leaves the stack as it was;
* `interpret_straightLine` — the run over a program writes its lines, and is complete.

A slot gets its name at its first use, in the middle of an expression.  All texts are therefore
compared under names that agree with a *later* table (`LocalNames.Named`): as tables only grow, a
text that is right under the names of one table is right under the names of all tables after it.
-/

namespace PseudoMove

open Fragment Text

/-- The names `name` are those of the table, for the slots that have one. -/
def LocalNames.Named (t : LocalNames) (name : Slot → String) : Prop :=
  ∀ slot n, t.get? slot = some n → name slot = n

theorem LocalNames.Extends.named {t t' : LocalNames} (h : t.Extends t') {name : Slot → String}
    (hn : t'.Named name) : t.Named name := fun slot n e => hn slot n (h slot n e)

theorem LocalNames.named_getD (t : LocalNames) : t.Named fun s => (t.get? s).getD placeholder := by
  intro slot n h
  show (t.get? slot).getD placeholder = n
  rw [h, Option.getD_some]

namespace StraightLine

/-! ## The source -/

/-- An expression. -/
inductive Expr where
  | read (s : Slot)
  | literal (digits : String)
  | bool (v : Bool)
  | binary (op : Operator) (a b : Expr)
  | not (a : Expr)
  | cast (ty : IntWidth) (a : Expr)
  | call (f : Callee) (args : List Expr)
  | vector (items : List Expr)

/-- A statement: a store, a call without a result, an expression that is discarded,
an abort, or a return. -/
inductive Stmt where
  | store (s : Slot) (a : Expr)
  | call (f : Callee) (args : List Expr)
  | discard (a : Expr)
  | abort (code : Expr)
  | ret (values : List Expr)

section Text

variable (name : Slot → String) (keep : Bool)

mutual

/-- The text of an expression, with slots under the names `name`. -/
def Expr.text : Expr → String
  | .read s => name s
  | .literal ds => ds
  | .bool v => if v then "true" else "false"
  | .binary op a b => "(" ++ a.text ++ " " ++ op.symbol ++ " " ++ b.text ++ ")"
  | .not a => negated a.text
  | .cast ty a => "(" ++ a.text ++ " as " ++ ty.name ++ ")"
  | .call f args => f.render keep ++ "(" ++ commaList (Expr.texts args) ++ ")"
  | .vector items => "vector[" ++ commaList (Expr.texts items) ++ "]"

/-- The texts of expressions, in order. -/
def Expr.texts : List Expr → List String
  | [] => []
  | a :: as => a.text :: Expr.texts as

end

/-- The text of a return of some values. -/
def returnText : List String → String
  | [] => "return;"
  | [value] => "return " ++ value ++ ";"
  | values => "return (" ++ commaList values ++ ");"

/-- The text of a statement. A store declares its slot if `declares` says so. -/
def Stmt.text (declares : Bool) : Stmt → String
  | .store s a => (if declares then "let " else "") ++ name s ++ " = " ++ a.text name keep ++ ";"
  | .call f args => f.render keep ++ "(" ++ commaList (Expr.texts name keep args) ++ ");"
  | .discard a => "_ = " ++ a.text name keep ++ ";"
  | .abort code => "abort " ++ code.text name keep ++ ";"
  | .ret values => returnText (Expr.texts name keep values)

/-- The slot that a statement stores into. -/
def Stmt.target? : Stmt → Option Slot
  | .store s _ => some s
  | _ => none

/-- Whether a statement declares its slot: it stores into one that is no parameter, and none of the
statements `before` it does. -/
def Stmt.declares (h : FunctionHeader) (before : List Stmt) (p : Stmt) : Bool :=
  p.target?.any fun s =>
    s ∉ (List.range h.parameters.length).map Slot.arg ∧ ∀ q ∈ before, q.target? ≠ some s

/-- The lines of a program, one for each statement, that comes after the statements `before`. -/
def lines (h : FunctionHeader) (before : List Stmt) : List Stmt → List String
  | [] => []
  | p :: ps => p.text name keep (p.declares h before) :: lines h (before ++ [p]) ps

theorem length_lines (h : FunctionHeader) (before program : List Stmt) :
    (lines name keep h before program).length = program.length := by
  induction program generalizing before with
  | nil => rfl
  | cons p ps ih => exact congrArg (· + 1) (ih _)

theorem texts_append (as bs : List Expr) :
    Expr.texts name keep (as ++ bs) = Expr.texts name keep as ++ Expr.texts name keep bs := by
  induction as with
  | nil => rfl
  | cons a as ih =>
    show a.text name keep :: Expr.texts name keep (as ++ bs) = _
    rw [ih]
    rfl

theorem length_texts (as : List Expr) : (Expr.texts name keep as).length = as.length := by
  induction as with
  | nil => rfl
  | cons a as ih => exact congrArg (· + 1) ih

end Text

/-! ## Its code -/

/-- The instructions `c` are the code of the expressions `as`, one after the other: operands come
first, from left to right. A vector has at most `limit` items. -/
inductive Codes (limit : Nat) : List Expr → List Instruction → Prop
  | nil : Codes limit [] []
  | cons {a as c cs} : Codes limit [a] c → Codes limit as cs → Codes limit (a :: as) (c ++ cs)
  | read {s r} : r.opcode = .copyLoc ∨ r.opcode = .moveLoc → Annotated r s →
      Codes limit [.read s] [r]
  | literal {w ds r} : r.opcode = .ldInt w → r.argument = some ds → ds ≠ "" →
      ds.toList.all Char.isDigit → Codes limit [.literal ds] [r]
  | bool {v r} : r.opcode = (if v then .ldTrue else .ldFalse) → Codes limit [.bool v] [r]
  | binary {op a b c r} : Codes limit [a, b] c → r.opcode = .binary op →
      Codes limit [.binary op a b] (c ++ [r])
  | not {a c r} : Codes limit [a] c → r.opcode = .not → Codes limit [.not a] (c ++ [r])
  | cast {ty a c r} : Codes limit [a] c → r.opcode = .cast ty → Codes limit [.cast ty a] (c ++ [r])
  | call {f args c r} : Codes limit args c → r.opcode = .call → callee? r = some f →
      f.arity = args.length → f.resultCount = 1 → Codes limit [.call f args] (c ++ [r])
  | vector {items c r} : Codes limit items c → r.opcode = .vecPack →
      Machine.countOf? r = some items.length → items.length ≤ limit →
      Codes limit [.vector items] (c ++ [r])

/-- The instructions are the code of a statement in a function with the header `h`. -/
inductive Stmt.Codes (h : FunctionHeader) (limit : Nat) : Stmt → List Instruction → Prop
  | store {s a c r} : StraightLine.Codes limit [a] c → r.opcode = .stLoc → Annotated r s →
      Stmt.Codes h limit (.store s a) (c ++ [r])
  | call {f args c r} : StraightLine.Codes limit args c → r.opcode = .call → callee? r = some f →
      f.arity = args.length → f.resultCount = 0 → Stmt.Codes h limit (.call f args) (c ++ [r])
  | discard {a c r} : StraightLine.Codes limit [a] c → r.opcode = .pop →
      Stmt.Codes h limit (.discard a) (c ++ [r])
  | abort {code c r} : StraightLine.Codes limit [code] c → r.opcode = .abort →
      Stmt.Codes h limit (.abort code) (c ++ [r])
  | ret {values c r} : StraightLine.Codes limit values c → r.opcode = .ret →
      TypeText.resultCount h.returnType.toList = values.length →
      Stmt.Codes h limit (.ret values) (c ++ [r])

/-! ## What the code of expressions pushes -/

theorem ne_placeholder {f : String} {c : Char} (h : c ∈ f.toList) (hc : c ≠ '?') :
    f ≠ placeholder := by
  rintro rfl
  rw [show placeholder.toList = ['?'] from rfl, List.mem_singleton] at h
  exact hc h

theorem isName_ne_placeholder {n : String} (hn : IsName n) : n ≠ placeholder :=
  hn.ne_of_not (by decide)

/-- From the machine `m`, the code `c` pushes the fragments `fs`, which are the texts of the
expressions `as`, and does nothing else but bind slots: the table becomes `t`. -/
structure Pushes (m : Machine) (c : List Instruction) (as : List Expr) (t : LocalNames)
    (fs : List String) : Prop where
  run : c.foldl Machine.step m = { m with stack := fs.reverse ++ m.stack, locals := t }
  texts : ∀ name, t.Named name → fs = Expr.texts name m.options.keepTypeArguments as
  known : placeholder ∉ fs
  grows : m.locals.Extends t
  wellFormed : t.WellFormed

section Machine

variable {m : Machine} {fs st : List String}

/-- What an effect asks for is there, and below it lies the rest. -/
theorem taken (h : m.stack = fs.reverse ++ st) :
    fs.length - m.stack.length = 0 ∧ m.stack.drop fs.length = st := by
  refine ⟨?_, ?_⟩
  · rw [h, List.length_append, List.length_reverse]
    omega
  · rw [h, ← List.length_reverse, List.drop_left]

theorem operands_of_stack (h : m.stack = fs.reverse ++ st) : m.operands fs.length = fs := by
  unfold Machine.operands
  dsimp only
  rw [(taken h).1, h, ← List.length_reverse, List.take_left, List.reverse_reverse]
  rfl

/-- An effect that takes what lies above `st` and puts back one fragment. -/
theorem apply_push (h : m.stack = fs.reverse ++ st) (f : String) (t : LocalNames) :
    m.apply { pops := fs.length, pushes := [f], locals := t } =
      { m with stack := f :: st, locals := t } := by
  unfold Machine.apply
  dsimp only
  rw [(taken h).1, (taken h).2]
  rfl

/-- An effect that takes what lies above `st` and writes a statement. -/
theorem apply_statement (h : m.stack = fs.reverse ++ st) (line : String) (t : LocalNames)
    (new : Option Slot) :
    m.apply { pops := fs.length, statement := some line, locals := t, assigned := new } =
      { m with
        stack := st
        locals := t
        assigned := new.toList ++ m.assigned
        emitted := line :: m.emitted } := by
  unfold Machine.apply
  dsimp only
  rw [(taken h).1, (taken h).2]
  rfl

theorem apply_push_only (m : Machine) (f : String) (t : LocalNames) :
    m.apply { pushes := [f], locals := t } = { m with stack := f :: m.stack, locals := t } := by
  have h : m.stack = ([] : List String).reverse ++ m.stack := rfl
  exact apply_push h f t

end Machine

/-- Operands and then an operator: the operator takes their fragments and puts back one. -/
theorem Pushes.operator {m : Machine} {c : List Instruction} {as : List Expr} {t : LocalNames}
    {fs : List String} (h : Pushes m c as t fs) {r : Instruction} {a : Expr} {f : String}
    (he : ∀ m' : Machine, m'.options = m.options → m'.stack = fs.reverse ++ m.stack →
      m'.effect r = { pops := fs.length, pushes := [f], locals := m'.locals })
    (hf : ∀ name, t.Named name → f = a.text name m.options.keepTypeArguments)
    (hne : f ≠ placeholder) : Pushes m (c ++ [r]) [a] t [f] where
  run := by
    have he := he { m with stack := fs.reverse ++ m.stack, locals := t } rfl rfl
    rw [List.foldl_append, h.run, List.foldl_cons, List.foldl_nil, Machine.step, he]
    exact apply_push rfl f _
  texts := fun name hn => congrArg (· :: []) (hf name hn)
  known := by
    rw [List.mem_singleton]
    exact hne.symm
  grows := h.grows
  wellFormed := h.wellFormed

/-- An instruction that takes nothing and pushes a text of its own. -/
theorem pushes_text {m : Machine} (hm : m.locals.WellFormed) {r : Instruction}
    {a : Expr} {f : String} (he : m.effect r = { pushes := [f], locals := m.locals })
    (hf : ∀ name, f = a.text name m.options.keepTypeArguments) (hne : f ≠ placeholder) :
    Pushes m [r] [a] m.locals [f] where
  run := by
    rw [List.foldl_cons, List.foldl_nil, Machine.step, he]
    exact apply_push_only m f _
  texts := fun name _ => congrArg (· :: []) (hf name)
  known := by
    rw [List.mem_singleton]
    exact hne.symm
  grows := LocalNames.Extends.refl _
  wellFormed := hm

/-- A read of an annotated slot binds it and pushes its name. -/
theorem pushes_read {m : Machine} (hm : m.locals.WellFormed) {r : Instruction} {s : Slot}
    (hop : r.opcode = .copyLoc ∨ r.opcode = .moveLoc) (hr : Annotated r s) :
    ∃ t f, Pushes m [r] [.read s] t [f] := by
  obtain ⟨ty, hs⟩ := m.slotOf?_of_annotated hr
  obtain ⟨n, t, heffect, hself, hwf, hgrows⟩ := Machine.effect_of_read hm hop hs
  refine ⟨t, n, ?_, ?_, ?_, hgrows, hwf⟩
  · rw [List.foldl_cons, List.foldl_nil, Machine.step, heffect]
    exact apply_push_only m n t
  · intro name hn
    rw [← hn s n hself]
    rfl
  · rw [List.mem_singleton]
    exact (isName_ne_placeholder (hwf.isName_of_get? hself)).symm

theorem Pushes.length {m : Machine} {c : List Instruction} {as : List Expr} {t : LocalNames}
    {fs : List String} (h : Pushes m c as t fs) : fs.length = as.length := by
  rw [h.texts _ t.named_getD, length_texts]

theorem Pushes.single {m : Machine} {c : List Instruction} {a : Expr} {t : LocalNames}
    {fs : List String} (h : Pushes m c [a] t fs) :
    ∃ x, fs = [x] ∧ ∀ name, t.Named name → x = a.text name m.options.keepTypeArguments := by
  obtain ⟨x, rfl⟩ := List.length_eq_one_iff.1 h.length
  refine ⟨x, rfl, fun name hn => ?_⟩
  exact (List.cons.inj (h.texts name hn)).1

theorem Pushes.pair {m : Machine} {c : List Instruction} {a b : Expr} {t : LocalNames}
    {fs : List String} (h : Pushes m c [a, b] t fs) :
    ∃ x y, fs = [x, y] ∧ ∀ name, t.Named name →
      x = a.text name m.options.keepTypeArguments ∧
        y = b.text name m.options.keepTypeArguments := by
  match fs, h.length with
  | [x, y], _ =>
    refine ⟨x, y, rfl, fun name hn => ?_⟩
    obtain ⟨hx, hys⟩ := List.cons.inj (h.texts name hn)
    exact ⟨hx, (List.cons.inj hys).1⟩

theorem Pushes.append {m : Machine} {c c' : List Instruction} {as as' : List Expr}
    {t t' : LocalNames} {fs fs' : List String} (h : Pushes m c as t fs)
    (h' : Pushes { m with stack := fs.reverse ++ m.stack, locals := t } c' as' t' fs') :
    Pushes m (c ++ c') (as ++ as') t' (fs ++ fs') where
  run := by
    rw [List.foldl_append, h.run, h'.run, List.reverse_append, List.append_assoc]
  texts := by
    intro name hn
    rw [texts_append, ← h.texts name (h'.grows.named hn), ← h'.texts name hn]
  known := by
    rw [List.mem_append]
    rintro (hp | hp)
    · exact h.known hp
    · exact h'.known hp
  grows := h.grows.trans h'.grows
  wellFormed := h'.wellFormed

/-- **The code of expressions pushes their texts**, from every machine with a well-formed table. -/
theorem Codes.pushes {limit : Nat} {as : List Expr} {c : List Instruction} (hc : Codes limit as c)
    (m : Machine) (hlimit : m.options.maxVectorElements = limit) (hm : m.locals.WellFormed) :
    ∃ t fs, Pushes m c as t fs := by
  induction hc generalizing m with
  | nil =>
    exact ⟨m.locals, [], rfl, fun _ _ => rfl, List.not_mem_nil, LocalNames.Extends.refl _, hm⟩
  | cons _ _ ih ih' =>
    obtain ⟨t, fs, h⟩ := ih m hlimit hm
    obtain ⟨t', fs', h'⟩ := ih' { m with stack := fs.reverse ++ m.stack, locals := t } hlimit
      h.wellFormed
    exact ⟨t', fs ++ fs', h.append h'⟩
  | read hop hr =>
    obtain ⟨t, f, h⟩ := pushes_read hm hop hr
    exact ⟨t, [f], h⟩
  | @literal w ds r hop harg hne hds =>
    refine ⟨m.locals, [ds], pushes_text hm ?_ (fun _ => rfl) ?_⟩
    · rw [Machine.effect, hop]
      dsimp only
      rw [harg]
      rfl
    · rintro rfl
      exact absurd hds (by decide)
  | @bool v r hop =>
    refine ⟨m.locals, [if v then "true" else "false"], pushes_text hm ?_ (fun _ => rfl) ?_⟩
    · rw [Machine.effect, hop]
      cases v <;> rfl
    · cases v <;> decide
  | @binary op a b c r _ hop ih =>
    obtain ⟨t, fs, h⟩ := ih m hlimit hm
    obtain ⟨x, y, rfl, hxy⟩ := h.pair
    refine ⟨t, ["(" ++ x ++ " " ++ op.symbol ++ " " ++ y ++ ")"], h.operator ?_ ?_ ?_⟩
    · intro m' _ hst
      rw [Machine.effect, hop]
      simp only [Machine.operand, hst]
      rfl
    · intro name hn
      rw [(hxy name hn).1, (hxy name hn).2]
      rfl
    · refine ne_placeholder (c := '(') ?_ (by decide)
      simp
  | @not a c r _ hop ih =>
    obtain ⟨t, fs, h⟩ := ih m hlimit hm
    obtain ⟨x, rfl, hx⟩ := h.single
    refine ⟨t, [negated x], h.operator ?_ ?_ ?_⟩
    · intro m' _ hst
      rw [Machine.effect, hop]
      simp only [Machine.operand, hst]
      rfl
    · intro name hn
      rw [hx name hn]
      rfl
    · refine ne_placeholder (c := '!') ?_ (by decide)
      simp [negated]
  | @cast ty a c r _ hop ih =>
    obtain ⟨t, fs, h⟩ := ih m hlimit hm
    obtain ⟨x, rfl, hx⟩ := h.single
    refine ⟨t, ["(" ++ x ++ " as " ++ ty.name ++ ")"], h.operator ?_ ?_ ?_⟩
    · intro m' _ hst
      rw [Machine.effect, hop]
      simp only [Machine.operand, hst]
      rfl
    · intro name hn
      rw [hx name hn]
      rfl
    · refine ne_placeholder (c := '(') ?_ (by decide)
      simp
  | @call f args c r _ hop hf harity hres ih =>
    obtain ⟨t, fs, h⟩ := ih m hlimit hm
    have hpops : f.arity = fs.length := by rw [harity, h.length]
    refine ⟨t, [f.render m.options.keepTypeArguments ++ "(" ++ commaList fs ++ ")"],
      h.operator ?_ ?_ ?_⟩
    · intro m' ho hst
      rw [m'.effect_call hop hf, Machine.callEffect, hres]
      dsimp only
      rw [hpops, operands_of_stack hst, ho]
      rfl
    · intro name hn
      rw [h.texts name hn]
      rfl
    · refine ne_placeholder (c := '(') ?_ (by decide)
      simp
  | @vector items c r _ hop hcount hle ih =>
    obtain ⟨t, fs, h⟩ := ih m hlimit hm
    refine ⟨t, ["vector[" ++ commaList fs ++ "]"], h.operator ?_ ?_ ?_⟩
    · intro m' ho hst
      have hn : m'.elementCount r = { count := fs.length } := by
        unfold Machine.elementCount
        rw [hcount, ho, hlimit, h.length]
        exact if_neg (by omega)
      rw [Machine.effect, hop]
      dsimp only
      rw [hn]
      dsimp only
      rw [operands_of_stack hst]
    · intro name hn
      rw [h.texts name hn]
      rfl
    · refine ne_placeholder (c := 'v') ?_ (by decide)
      simp

/-! ## What the code of a statement writes -/

/-- The slot that a statement declares when the slots `assigned` have been stored into. -/
def Stmt.newSlot (assigned : List Slot) (p : Stmt) : Option Slot :=
  p.target?.filter fun s => s ∉ assigned

/-- From the machine `m`, the code `c` writes the line of the statement `p`. The stack is as it was,
and the table becomes `t`. -/
structure Writes (m : Machine) (c : List Instruction) (p : Stmt) (t : LocalNames) (line : String) :
    Prop where
  run : c.foldl Machine.step m =
    { m with
      locals := t
      assigned := (p.newSlot m.assigned).toList ++ m.assigned
      emitted := line :: m.emitted }
  text : ∀ name, t.Named name →
    line = p.text name m.options.keepTypeArguments (p.newSlot m.assigned).isSome
  grows : m.locals.Extends t
  wellFormed : t.WellFormed

/-- Operands and then an instruction that makes a statement of them, and is no store. -/
theorem Pushes.statement {m : Machine} {c : List Instruction} {as : List Expr} {t : LocalNames}
    {fs : List String} (h : Pushes m c as t fs) {r : Instruction} {p : Stmt} {line : String}
    (hp : p.target? = none)
    (he : ∀ m' : Machine, m'.header = m.header → m'.options = m.options →
      m'.stack = fs.reverse ++ m.stack →
      m'.effect r = { pops := fs.length, statement := some line, locals := m'.locals })
    (hline : ∀ name, t.Named name → line = p.text name m.options.keepTypeArguments false) :
    Writes m (c ++ [r]) p t line := by
  have hnew : p.newSlot m.assigned = none := by
    rw [Stmt.newSlot, hp]
    rfl
  refine ⟨?_, ?_, h.grows, h.wellFormed⟩
  · have he := he { m with stack := fs.reverse ++ m.stack, locals := t } rfl rfl rfl
    rw [List.foldl_append, h.run, List.foldl_cons, List.foldl_nil, Machine.step, he, hnew]
    exact apply_statement rfl line t none
  · rw [hnew]
    exact hline

/-- A store into an annotated slot. -/
theorem Pushes.store {m : Machine} {c : List Instruction} {a : Expr} {t : LocalNames}
    {fs : List String} (h : Pushes m c [a] t fs) {r : Instruction} {s : Slot}
    (hop : r.opcode = .stLoc) (hr : Annotated r s) :
    ∃ t' line, Writes m (c ++ [r]) (.store s a) t' line := by
  obtain ⟨x, rfl, hx⟩ := h.single
  obtain ⟨ty, hs⟩ := Machine.slotOf?_of_annotated { m with stack := x :: m.stack, locals := t } hr
  obtain ⟨n, t', he, hself, hwf, hgrows⟩ := Machine.effect_of_store h.wellFormed hop hs
  have hnew : (Stmt.store s a).newSlot m.assigned = if s ∉ m.assigned then some s else none := by
    simp [Stmt.newSlot, Stmt.target?, Option.filter]
  refine ⟨t', (if s ∉ m.assigned then "let " else "") ++ n ++ " = " ++ x ++ ";", ?_, ?_,
    h.grows.trans hgrows, hwf⟩
  · have hst : Machine.stack { m with stack := x :: m.stack, locals := t } =
        [x].reverse ++ m.stack := rfl
    rw [List.foldl_append, h.run, List.foldl_cons, List.foldl_nil, Machine.step]
    show Machine.apply _ (Machine.effect { m with stack := x :: m.stack, locals := t } r) = _
    rw [he, hnew]
    exact apply_statement hst _ _ _
  · intro name hn
    rw [hx name (hgrows.named hn), hnew, ← hn s n hself]
    by_cases hs : s ∈ m.assigned <;> simp [hs, Stmt.text]

/-- A return of as many values as the function's return type has. -/
theorem returnEffect_of_stack {m : Machine} {fs st : List String} (h : m.stack = fs.reverse ++ st)
    (hn : TypeText.resultCount m.header.returnType.toList = fs.length) :
    m.returnEffect =
      { pops := fs.length, statement := some (returnText fs), locals := m.locals } := by
  have hfs := operands_of_stack h
  unfold Machine.returnEffect
  rw [hn]
  match fs with
  | [] => rfl
  | [x] =>
    simp only [Machine.operand, h]
    rfl
  | x :: y :: fs =>
    show Effect.mk (fs.length + 2) []
      (some ("return (" ++ commaList (m.operands (fs.length + 2)) ++ ");"))
      0 m.locals none none [] = _
    rw [show m.operands (fs.length + 2) = x :: y :: fs from hfs]
    rfl

/-- **The code of a statement writes its line**, from every machine over the function. -/
theorem Stmt.Codes.writes {h : FunctionHeader} {limit : Nat} {p : Stmt} {c : List Instruction}
    (hc : p.Codes h limit c) (m : Machine) (hh : m.header = h)
    (hlimit : m.options.maxVectorElements = limit) (hm : m.locals.WellFormed) :
    ∃ t line, Writes m c p t line := by
  cases hc with
  | store ha hop hr =>
    obtain ⟨t, fs, hp⟩ := ha.pushes m hlimit hm
    exact hp.store hop hr
  | @call f args c r hargs hop hf harity hres =>
    obtain ⟨t, fs, hp⟩ := hargs.pushes m hlimit hm
    have hpops : f.arity = fs.length := by rw [harity, hp.length]
    refine ⟨t, f.render m.options.keepTypeArguments ++ "(" ++ commaList fs ++ ")" ++ ";",
      hp.statement rfl ?_ ?_⟩
    · intro m' _ ho hst
      rw [m'.effect_call hop hf, Machine.callEffect, hres]
      dsimp only
      rw [hpops, operands_of_stack hst, ho]
      rfl
    · intro name hn
      rw [hp.texts name hn]
      exact String.append_assoc
  | discard ha hop =>
    obtain ⟨t, fs, hp⟩ := ha.pushes m hlimit hm
    obtain ⟨x, rfl, hx⟩ := hp.single
    refine ⟨t, "_ = " ++ x ++ ";", hp.statement rfl ?_ ?_⟩
    · intro m' _ _ hst
      have hne : x ≠ placeholder := fun e => hp.known (List.mem_singleton.2 e.symm)
      rw [Machine.effect, hop]
      simp only [Machine.operand, hst]
      show Effect.mk .. = _
      rw [show (([x].reverse ++ m.stack)[0]?.getD placeholder) = x from rfl, if_neg hne]
      rfl
    · intro name hn
      rw [hx name hn]
      rfl
  | abort ha hop =>
    obtain ⟨t, fs, hp⟩ := ha.pushes m hlimit hm
    obtain ⟨x, rfl, hx⟩ := hp.single
    refine ⟨t, "abort " ++ x ++ ";", hp.statement rfl ?_ ?_⟩
    · intro m' _ _ hst
      rw [Machine.effect, hop]
      simp only [Machine.operand, hst]
      rfl
    · intro name hn
      rw [hx name hn]
      rfl
  | @ret values c r hvs hop hn =>
    obtain ⟨t, fs, hp⟩ := hvs.pushes m hlimit hm
    refine ⟨t, returnText fs, hp.statement rfl ?_ ?_⟩
    · intro m' hh' _ hst
      rw [Machine.effect, hop]
      exact returnEffect_of_stack hst (by rw [hh', hh, hn, hp.length])
    · intro name hname
      rw [hp.texts name hname]
      rfl

/-! ## Programs -/

/-- The slots that count as assigned are the parameters and those that the statements `before` store
into. -/
def AssignedBy (h : FunctionHeader) (before : List Stmt) (assigned : List Slot) : Prop :=
  ∀ s, s ∈ assigned ↔
    s ∈ (List.range h.parameters.length).map Slot.arg ∨ ∃ q ∈ before, q.target? = some s

theorem AssignedBy.isSome_newSlot {h : FunctionHeader} {before : List Stmt} {assigned : List Slot}
    (ha : AssignedBy h before assigned) (p : Stmt) :
    (p.newSlot assigned).isSome = p.declares h before := by
  unfold Stmt.newSlot Stmt.declares
  cases p.target? with
  | none => rfl
  | some s =>
    have e : s ∉ assigned ↔ s ∉ (List.range h.parameters.length).map Slot.arg ∧
        ∀ q ∈ before, q.target? ≠ some s := by
      rw [ha s, not_or]
      exact and_congr_right fun _ =>
        ⟨fun hq q hm e => hq ⟨q, hm, e⟩, fun hq ⟨q, hm, e⟩ => hq q hm e⟩
    rw [Option.any_some]
    by_cases hs : s ∈ assigned
    · rw [decide_eq_false fun hd => e.2 hd hs]
      simp [Option.filter, hs]
    · rw [decide_eq_true (e.1 hs)]
      simp [Option.filter, hs]

theorem AssignedBy.snoc {h : FunctionHeader} {before : List Stmt} {assigned : List Slot}
    (ha : AssignedBy h before assigned) (p : Stmt) :
    AssignedBy h (before ++ [p]) ((p.newSlot assigned).toList ++ assigned) := by
  intro s
  have hmem : s ∈ (p.newSlot assigned).toList ++ assigned ↔ s ∈ assigned ∨ p.target? = some s := by
    unfold Stmt.newSlot
    cases p.target? with
    | none => simp
    | some s' =>
      by_cases hs : s' ∈ assigned
      · have : s' = s → s ∈ assigned := fun e => e ▸ hs
        simpa [Option.filter, hs] using this
      · simp [Option.filter, hs, or_comm, eq_comm]
  have hbefore : (∃ q ∈ before ++ [p], q.target? = some s) ↔
      (∃ q ∈ before, q.target? = some s) ∨ p.target? = some s := by
    simp [or_and_right, exists_or]
  rw [hmem, hbefore, ha s, or_assoc]

/-- The code of a program, one statement after the other, writes its lines. -/
theorem run_program {h : FunctionHeader} {limit : Nat} {program : List Stmt}
    {code : List (List Instruction)} (hc : List.Forall₂ (Stmt.Codes h limit) program code)
    (before : List Stmt) (m : Machine) (hh : m.header = h)
    (hlimit : m.options.maxVectorElements = limit) (hm : m.locals.WellFormed)
    (ha : AssignedBy h before m.assigned) :
    ∃ t ls assigned, m.locals.Extends t ∧
      code.flatten.foldl Machine.step m =
        { m with locals := t, emitted := ls.reverse ++ m.emitted, assigned } ∧
      ∀ name, t.Named name → ls = lines name m.options.keepTypeArguments h before program := by
  induction hc generalizing before m with
  | nil => exact ⟨m.locals, [], m.assigned, LocalNames.Extends.refl _, rfl, fun _ _ => rfl⟩
  | @cons p c ps cs hp _ ih =>
    obtain ⟨t, line, hw⟩ := hp.writes m hh hlimit hm
    obtain ⟨t', ls, assigned, hgrows, hrun, hls⟩ := ih (before ++ [p])
      { m with
        locals := t
        assigned := (p.newSlot m.assigned).toList ++ m.assigned
        emitted := line :: m.emitted } hh hlimit hw.wellFormed (ha.snoc p)
    refine ⟨t', line :: ls, assigned, hw.grows.trans hgrows, ?_, ?_⟩
    · rw [List.flatten_cons, List.foldl_append, hw.run, hrun, List.reverse_cons, List.append_assoc]
      rfl
    · intro name hn
      rw [lines, ← hls name hn, ← ha.isSome_newSlot p, ← hw.text name (hgrows.named hn)]

/-- **Straight-line code gives the program back.** For every function and every program, the
run over its code writes one line for each statement, which is its text under the names of the
final table, whatever `name` gives a slot that is not in the table. Nothing is skipped,
missing or left over. -/
theorem interpret_straightLine (h : FunctionHeader) (options : MachineOptions)
    (decls : List SlotDecl) (program : List Stmt) (code : List (List Instruction))
    (hc : List.Forall₂ (Stmt.Codes h options.maxVectorElements) program code) :
    let body : Body := ⟨decls, code.flatten⟩
    let i := interpret h body options
    let table := ((Machine.start h options).run body).locals
    (∀ name, table.Named name →
      i.function.statements = lines name options.keepTypeArguments h [] program) ∧
    i.function.statements.length = program.length ∧ i.isComplete = true := by
  intro body i table
  obtain ⟨t, declared, hd⟩ := Machine.foldl_declare_eq decls (Machine.start h options)
  have hwf : t.WellFormed := by
    have hstart : Machine.Reachable h options (Machine.start h options) := .start
    have := (hstart.foldl_declare decls).wellFormed
    rwa [hd] at this
  obtain ⟨t', ls, assigned, -, hrun, hls⟩ := run_program hc []
    { Machine.start h options with locals := t, declared } rfl rfl hwf
    (fun s => by simp [Machine.start])
  have hfinal : (Machine.start h options).run body =
      { Machine.start h options with
        locals := t', declared, emitted := ls.reverse ++ [], assigned } := by
    show code.flatten.foldl Machine.step (decls.foldl Machine.declare (Machine.start h options)) = _
    rw [hd, hrun]
    rfl
  have hstatements : i.function.statements = ls := by
    show ((Machine.start h options).run body).emitted.reverse = ls
    rw [hfinal]
    simp
  have htable : table = t' := by
    show ((Machine.start h options).run body).locals = t'
    rw [hfinal]
  refine ⟨?_, ?_, ?_⟩
  · intro name hn
    rw [htable] at hn
    rw [hstatements]
    exact hls name hn
  · rw [hstatements, hls _ t'.named_getD, length_lines]
  · show ((Machine.start h options).run body).result.isComplete = true
    rw [hfinal]
    rfl

/-! ### A program -/

/-- A function of two parameters with one result. -/
def feeHeader : FunctionHeader where
  name := "settle"
  parameters := [⟨"amount", "u64"⟩, ⟨"limit", "u64"⟩]
  returnType := "u64"

/-- A function with two parameters and one result. -/
def scale : Callee where
  path := "0x2::math::scale"
  typeArguments := []
  parameterTypes := ["u64", "u64"]
  returnType := "u64"

/-- A store of a sum with a call in it, a store into the same slot, a discarded
negation, and a return. -/
def feeProgram : List Stmt :=
  [.store (.loc 0) (.binary .add (.read (.arg 0)) (.call scale [.read (.arg 1), .literal "5"])),
    .store (.loc 0) (.cast .u64 (.read (.loc 0))),
    .discard (.not (.binary .lt (.read (.arg 0)) (.read (.loc 0)))),
    .ret [.read (.loc 0)]]

/-- Its code, with offsets left out. -/
def feeCode : List (List Instruction) :=
  [[⟨0, .copyLoc, none, some "Arg0: u64"⟩, ⟨0, .moveLoc, none, some "Arg1: u64"⟩,
      ⟨0, .ldInt .u64, none, some "5"⟩, ⟨0, .call, none, some "0x2::math::scale(u64,u64):u64"⟩,
      ⟨0, .binary .add, none, none⟩, ⟨0, .stLoc, none, some "loc0: u64"⟩],
    [⟨0, .copyLoc, none, some "loc0: u64"⟩, ⟨0, .cast .u64, none, none⟩,
      ⟨0, .stLoc, none, some "loc0: u64"⟩],
    [⟨0, .copyLoc, none, some "Arg0: u64"⟩, ⟨0, .copyLoc, none, some "loc0: u64"⟩,
      ⟨0, .binary .lt, none, none⟩, ⟨0, .not, none, none⟩, ⟨0, .pop, none, none⟩],
    [⟨0, .moveLoc, none, some "loc0: u64"⟩, ⟨0, .ret, none, none⟩]]

theorem codes_feeProgram : List.Forall₂ (Stmt.Codes feeHeader 100000) feeProgram feeCode := by
  have hread : ∀ {s : Slot} {op : Opcode}, op = .copyLoc ∨ op = .moveLoc → s.number < wordLimit →
      StraightLine.Codes 100000 [.read s] [⟨0, op, none, some (s.remark "u64")⟩] :=
    fun hop hs => .read hop ⟨hs, "u64", rfl⟩
  have hstore : ∀ {s : Slot} {a c}, StraightLine.Codes 100000 [a] c → s.number < wordLimit →
      Stmt.Codes feeHeader 100000 (.store s a) (c ++ [⟨0, .stLoc, none, some (s.remark "u64")⟩]) :=
    fun ha hs => .store ha rfl ⟨hs, "u64", rfl⟩
  have harg : ∀ i < 2, (Slot.arg i).number < wordLimit := by decide
  have hloc : (Slot.loc 0).number < wordLimit := by decide
  have hfive : StraightLine.Codes 100000 [.literal "5"] [⟨0, .ldInt .u64, none, some "5"⟩] :=
    .literal rfl (by decide) (by decide) (by decide)
  have hcall := Codes.call (f := scale)
    (r := ⟨0, .call, none, some "0x2::math::scale(u64,u64):u64"⟩)
    ((hread (.inr rfl) (harg 1 (by decide))).cons (hfive.cons .nil)) rfl (by decide +kernel)
    (by decide) (by decide)
  refine .cons ?_ (.cons ?_ (.cons ?_ (.cons ?_ .nil)))
  · exact hstore (.binary ((hread (.inl rfl) (harg 0 (by decide))).cons (hcall.cons .nil)) rfl) hloc
  · exact hstore (.cast (hread (.inl rfl) hloc) rfl) hloc
  · exact .discard (.not (.binary ((hread (.inl rfl) (harg 0 (by decide))).cons
      ((hread (.inl rfl) hloc).cons .nil)) rfl) rfl) rfl
  · exact .ret (hread (.inr rfl) hloc) rfl (by decide)

/-- The program read back. The local is named after its type, with a number as the
parameter has the name. -/
theorem interpret_feeProgram :
    List.Forall₂ (Stmt.Codes feeHeader 100000) feeProgram feeCode ∧
    (interpret feeHeader ⟨[], feeCode.flatten⟩ {}).function.statements =
      ["let amount_1 = (amount + math::scale(limit, 5));",
        "amount_1 = (amount_1 as u64);",
        "_ = !(amount < amount_1);",
        "return amount_1;"] := by
  refine ⟨codes_feeProgram, ?_⟩
  obtain ⟨h, -, -⟩ := interpret_straightLine feeHeader {} [] feeProgram feeCode codes_feeProgram
  rw [h _ (LocalNames.named_getD _)]
  decide +kernel

end StraightLine

end PseudoMove
