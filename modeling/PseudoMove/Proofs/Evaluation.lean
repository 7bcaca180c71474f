import PseudoMove.Proofs.ArithmeticText
import PseudoMove.Proofs.SlotNumbers
import PseudoMove.Proofs.StackEffect
import Mathlib.Data.List.Forall2

/-!
# The value of straight-line code

Straight-line arithmetic has a value twice: the instructions have one on a stack of values
(`evaluate`), and the statements written for them have one as a program text (`Returns`).

The values belong to the variables of the bytecode.  A declared slot is a variable of its own,
whatever number and name it gets (`Variable.ofInstruction?`), so that the values say nothing
of how the machine tells slots apart; the code that is compared is code whose variables it
tells apart (`ToldApart`).

The stack of the fragment machine holds texts, not values.  A text that reads a local has the value
that the local has where the text is *used*, so that the two values differ when the local is stored
into in between: from `CopyLoc x; LdU64(5); StLoc x; Ret` come the lines `x = 5;` and `return x;`
(`returns_overwritten`).  `Fresh` says that this does not happen, and then they agree
(`returns_iff_of_fresh`).

The proof goes along the run.  `Denotes` relates a fragment to its value and to the variables it
reads, and `Matches` the whole machine: between two instructions every fragment that is not stale
has its value under the environment that the lines so far lead to.  That names of different
variables differ is what makes a store leave other fragments alone.
-/

namespace PseudoMove.Arithmetic

open Text Remark

/-! ## Variables -/

/-- A variable of the bytecode: a parameter, a slot that is declared, or a local that is not, by its
number behind the parameters. -/
inductive Variable where
  | parameter (n : Nat)
  | declared (slot : Nat)
  | undeclared (n : Nat)
deriving DecidableEq, Repr

/-- The variable that an instruction means. Its label names it if it can, a local by the number
that a declared slot has or else none of them; otherwise the operand is its place, where
parameters come first. -/
def Variable.ofInstruction? (params : Nat) (decls : List SlotDecl) (r : Instruction) :
    Option Variable :=
  match r.remark.bind fun a => slot? (labelAndType a.toList).1 with
  | some (.arg n) => some (.parameter n)
  | some (.loc n) =>
    match decls.zipIdx.find? fun d => d.1.number d.2 = n with
    | some d => some (.declared d.1.slot)
    | none => some (.undeclared n)
  | none =>
    r.operandIndex.map fun i =>
      if i < params then .parameter i
      else if i ∈ decls.map (·.slot) then .declared i
      else .undeclared (i - params)

/-! ## The instructions on a stack of values -/

/-- The arithmetic that an operator stands for. -/
def ofOperator? : Operator → Option Op
  | .add => some .add
  | .sub => some .sub
  | .mul => some .mul
  | _ => none

theorem operator_of_ofOperator? {o : Operator} {p : Op} (h : ofOperator? o = some p) :
    p.operator = o := by
  cases o <;> simp [ofOperator?] at h <;> subst h <;> rfl

/-- The literal that an instruction gives. -/
def literal? (r : Instruction) : Option String :=
  r.argument.filter fun ds => ds ≠ "" ∧ ds.toList.all Char.isDigit

/-- A state of the value machine: the stack, top first, and the values of the
variables that have one. -/
structure Values where
  stack : List Int := []
  locals : Variable → Option Int

section

variable (variableOf : Instruction → Option Variable)

/-- Runs one instruction on values, where `variableOf` gives the variable that an instruction means.
A moved local keeps its value; code that does not read it again cannot tell. -/
def Values.step (v : Values) (r : Instruction) : Option Values :=
  match r.opcode, v.stack with
  | .copyLoc, st | .moveLoc, st =>
    (variableOf r).bind fun u => (v.locals u).map fun x => { v with stack := x :: st }
  | .ldInt _, st =>
    (literal? r).map fun ds => { v with stack := (Text.digitsValue ds.toList : Int) :: st }
  | .binary o, y :: x :: st => (ofOperator? o).map fun p => { v with stack := p.apply x y :: st }
  | .stLoc, x :: st =>
    (variableOf r).map fun u =>
      { stack := st, locals := fun u' => if u' = u then some x else v.locals u' }
  | _, _ => none

/-- The value of a body under arguments: what lies on top when the return comes. There is none if an
instruction is no arithmetic, reads a local without a value, or takes from an empty stack. -/
def evaluate (args : List Int) (body : List Instruction) : Option Int :=
  let start : Values :=
    { locals := fun
        | .parameter i => args[i]?
        | _ => none }
  (body.foldlM (Values.step variableOf) start).bind (·.stack.head?)

/-! ## Which fragments are stale -/

/-- What is known about a fragment: the variables it reads, and whether one of them
was stored into since. -/
structure Entry where
  reads : List Variable
  stale : Bool
deriving DecidableEq, Repr

/-- The fragment after a store into a variable. -/
def Entry.overwrite (u : Variable) (e : Entry) : Entry :=
  { e with stale := e.stale || decide (u ∈ e.reads) }

/-- Runs one instruction on such knowledge. A stale fragment is not to be stored. -/
def track (es : List Entry) (r : Instruction) : Option (List Entry) :=
  match r.opcode, es with
  | .copyLoc, es | .moveLoc, es => (variableOf r).map fun u => ⟨[u], false⟩ :: es
  | .ldInt _, es => some (⟨[], false⟩ :: es)
  | .binary _, b :: a :: es => some (⟨a.reads ++ b.reads, a.stale || b.stale⟩ :: es)
  | .stLoc, a :: es =>
    if a.stale then none else (variableOf r).map fun u => es.map (Entry.overwrite u)
  | _, _ => none

/-- No fragment is stored or returned after a store into a variable that it reads. -/
def Fresh (body : List Instruction) : Bool :=
  ((body.foldlM (track variableOf) []).bind List.head?).any fun e => !e.stale

end

/-! ## Fragments and values -/

/-- How a machine sees variables: an instruction that means a known one finds its slot, and no two
known ones have the same slot. -/
structure Resolves (variableOf : Instruction → Option Variable) (slot : Variable → Slot)
    (known : Variable → Prop) (m : Machine) : Prop where
  slotOf : ∀ r u, variableOf r = some u → known u → (m.slotOf? r).map (·.1) = some (slot u)
  injective : ∀ u u', known u → known u' → slot u = slot u' → u = u'

section

variable (slot : Variable → Slot) (known : Variable → Prop)

/-- The fragment `f` has the value `x`, unless it is stale: it is the text of a term whose names are
those of the variables it reads. -/
def Denotes (t : LocalNames) (env : String → Option Int) (f : String) (x : Int × Entry) : Prop :=
  ∃ e : Term, e.WellFormed ∧ e.text = f ∧
    (∀ n ∈ e.vars, ∃ u ∈ x.2.reads, known u ∧ t.get? (slot u) = some n) ∧
    (x.2.stale = false → e.eval env = some x.1)

end

section

variable {slot : Variable → Slot} {known : Variable → Prop}

theorem Denotes.mono {t t' : LocalNames} (h : t.Extends t') {env : String → Option Int} {f : String}
    {x : Int × Entry} (hd : Denotes slot known t env f x) : Denotes slot known t' env f x := by
  obtain ⟨e, hwf, htext, hvars, heval⟩ := hd
  refine ⟨e, hwf, htext, fun n hn => ?_, heval⟩
  obtain ⟨u, hu, hknown, hget⟩ := hvars n hn
  exact ⟨u, hu, hknown, h _ n hget⟩

/-- A store into a variable makes the fragments that read it stale and leaves the others alone. -/
theorem Denotes.overwrite {t : LocalNames} (ht : t.WellFormed)
    (hinjective : ∀ u u', known u → known u' → slot u = slot u' → u = u')
    {env : String → Option Int} {f : String} {x : Int} {e : Entry}
    (hd : Denotes slot known t env f (x, e)) {u : Variable} (hu : known u) {n : String}
    (hn : t.get? (slot u) = some n) (y : Int) :
    Denotes slot known t (assignTo env n y) f (x, e.overwrite u) := by
  obtain ⟨term, hwf, htext, hvars, heval⟩ := hd
  refine ⟨term, hwf, htext, hvars, fun hfresh => ?_⟩
  obtain ⟨hstale, hreads⟩ : e.stale = false ∧ u ∉ e.reads := by
    simpa [Entry.overwrite] using hfresh
  rw [← heval hstale]
  refine Term.eval_congr fun m hm => if_neg ?_
  rintro rfl
  obtain ⟨u', hread, hu', hget⟩ := hvars m hm
  rw [hinjective u u' hu hu' (ht.injective _ _ m hn hget)] at hreads
  exact hreads hread

/-- The fragment machine and the value machine agree: fragments have the values on the stack, and
variables with a value have a name with that value. -/
structure Matches (variableOf : Instruction → Option Variable) (slot : Variable → Slot)
    (known : Variable → Prop) (m : Machine) (v : Values) (es : List Entry)
    (env : String → Option Int) : Prop where
  resolves : Resolves variableOf slot known m
  wellFormed : m.locals.WellFormed
  length : v.stack.length = es.length
  stack : List.Forall₂ (Denotes slot known m.locals env) m.stack (v.stack.zip es)
  locals : ∀ u x, v.locals u = some x →
    known u ∧ ∃ n, m.locals.get? (slot u) = some n ∧ env n = some x

end

/-! ## One instruction -/

variable {variableOf : Instruction → Option Variable} {slot : Variable → Slot}
  {known : Variable → Prop} {m : Machine} {v : Values} {es : List Entry} {env : String → Option Int}
  {r : Instruction}

/-- The machine goes on to `m'` with some more lines, and matches the values and entries there under
the environment that those lines lead to. -/
def Continues (variableOf : Instruction → Option Variable) (slot : Variable → Slot)
    (known : Variable → Prop) (m m' : Machine) (v' : Values) (es' : List Entry)
    (env : String → Option Int) : Prop :=
  ∃ ps env', (∀ p ∈ ps, p.WellFormed) ∧ m'.statements = m.statements ++ ps.map Stmt.text ∧
    (∀ qs, exec env (ps ++ qs) = exec env' qs) ∧ Matches variableOf slot known m' v' es' env'

theorem Matches.continues_self {m' : Machine} {v' : Values} {es' : List Entry}
    (h : Matches variableOf slot known m' v' es' env) (hs : m'.statements = m.statements) :
    Continues variableOf slot known m m' v' es' env :=
  ⟨[], env, by simp, by simp [hs], fun _ => rfl, h⟩

theorem Resolves.slot? (h : Resolves variableOf slot known m) {u : Variable}
    (hu : variableOf r = some u) (hknown : known u) : ∃ ty, m.slotOf? r = some (slot u, ty) := by
  obtain ⟨⟨s, ty⟩, hs, hslot⟩ := Option.map_eq_some_iff.1 (h.slotOf r u hu hknown)
  exact ⟨ty, hslot ▸ hs⟩

/-- An instruction that takes `n` fragments, pushes one with the value `x`, and names nothing
new. -/
theorem Matches.push (h : Matches variableOf slot known m v es env)
    {n : Nat} {f : String} {t : LocalNames}
    (he : m.effect r = { pops := n, pushes := [f], locals := t }) (ht : t.WellFormed)
    (hgrows : m.locals.Extends t) {x : Int} {e : Entry} (hd : Denotes slot known t env f (x, e)) :
    Continues variableOf slot known m (m.step r) { v with stack := x :: v.stack.drop n }
      (e :: es.drop n) env := by
  have hst : (m.step r).stack = f :: m.stack.drop n := by
    rw [Machine.step, he]
    rfl
  have ht' : (m.step r).locals = t := by
    rw [Machine.step, he]
    rfl
  refine Matches.continues_self ⟨⟨h.resolves.slotOf, h.resolves.injective⟩, ht' ▸ ht, ?_, ?_, ?_⟩ ?_
  · simp [h.length]
  · have hzip : (v.stack.drop n).zip (es.drop n) = (v.stack.zip es).drop n := List.drop_zipWith.symm
    rw [hst, ht', List.zip_cons_cons, hzip]
    exact .cons hd ((List.forall₂_drop n h.stack).imp fun _ _ => Denotes.mono hgrows)
  · intro u x hu
    obtain ⟨hknown, name, hname, hval⟩ := h.locals u x hu
    exact ⟨hknown, name, ht' ▸ hgrows _ name hname, hval⟩
  · rw [m.statements_step, he]
    simp

/-- A read of a variable pushes its name, which has the value of the variable now. -/
theorem Matches.read (h : Matches variableOf slot known m v es env)
    (hop : r.opcode = .copyLoc ∨ r.opcode = .moveLoc) {u : Variable} (hu : variableOf r = some u)
    {x : Int} (hx : v.locals u = some x) :
    Continues variableOf slot known m (m.step r) { v with stack := x :: v.stack }
      (⟨[u], false⟩ :: es) env := by
  obtain ⟨hknown, n, hn, hval⟩ := h.locals u x hx
  obtain ⟨ty, hslot⟩ := h.resolves.slot? hu hknown
  obtain ⟨name, t, he, hself, hwf, hgrows⟩ := Machine.effect_of_read h.wellFormed hop hslot
  obtain rfl : n = name := Option.some.inj ((hgrows _ n hn).symm.trans hself)
  refine h.push he hwf hgrows ⟨.var n, hwf.isName_of_get? hself, rfl, ?_, fun _ => hval⟩
  intro n' hn'
  obtain rfl : n' = n := List.mem_singleton.1 hn'
  exact ⟨u, List.mem_singleton_self u, hknown, hself⟩

/-- A literal pushes itself. -/
theorem Matches.literal (h : Matches variableOf slot known m v es env) {w : IntWidth}
    (hop : r.opcode = .ldInt w) {ds : String} (hds : literal? r = some ds) :
    Continues variableOf slot known m (m.step r)
      { v with stack := (Text.digitsValue ds.toList : Int) :: v.stack }
      (⟨[], false⟩ :: es) env := by
  obtain ⟨harg, hlit⟩ : r.argument = some ds ∧ (ds ≠ "" ∧ ds.toList.all Char.isDigit = true) := by
    simpa [literal?, Option.filter_eq_some_iff] using hds
  refine h.push (m.effect_literal hop harg) h.wellFormed (LocalNames.Extends.refl _)
    ⟨.lit ds, hlit, rfl, ?_, fun _ => rfl⟩
  exact fun n hn => absurd hn List.not_mem_nil

/-- An operator takes two fragments and pushes the operation on them. It is stale if one of them
is. -/
theorem Matches.operate {st : List Int} {x y : Int} {a b : Entry}
    (h : Matches variableOf slot known m { v with stack := y :: x :: st } (b :: a :: es) env)
    {o : Operator} {p : Op} (hop : r.opcode = .binary o) (hp : ofOperator? o = some p) :
    Continues variableOf slot known m (m.step r) { v with stack := p.apply x y :: st }
      (⟨a.reads ++ b.reads, a.stale || b.stale⟩ :: es) env := by
  obtain ⟨g, gs, hg, hgs, hstack⟩ := List.forall₂_cons_right_iff.1 h.stack
  obtain ⟨f, fs, hf, -, rfl⟩ := List.forall₂_cons_right_iff.1 hgs
  have he := m.effect_binary hop hstack
  obtain ⟨e, hwf, rfl, hvars, heval⟩ := hf
  obtain ⟨e', hwf', rfl, hvars', heval'⟩ := hg
  refine h.push he h.wellFormed (LocalNames.Extends.refl _) ⟨.op p e e', ⟨hwf, hwf'⟩, ?_, ?_, ?_⟩
  · rw [Term.text, operator_of_ofOperator? hp]
  · intro n hn
    rcases List.mem_append.1 hn with hn | hn
    · obtain ⟨u, hu, hget⟩ := hvars n hn
      exact ⟨u, List.mem_append_left _ hu, hget⟩
    · obtain ⟨u, hu, hget⟩ := hvars' n hn
      exact ⟨u, List.mem_append_right _ hu, hget⟩
  · intro hfresh
    obtain ⟨ha, hb⟩ := Bool.or_eq_false_iff.1 hfresh
    rw [Term.eval, heval ha, heval' hb]
    rfl

/-- A store writes an assignment of a fragment that is not stale. The fragments that read the
variable become stale. -/
theorem Matches.store {st : List Int} {x : Int} {a : Entry}
    (h : Matches variableOf slot known m { v with stack := x :: st } (a :: es) env)
    (hop : r.opcode = .stLoc) (ha : a.stale = false) {u : Variable} (hu : variableOf r = some u)
    (hknown : known u) :
    Continues variableOf slot known m (m.step r)
      { stack := st, locals := fun u' => if u' = u then some x else v.locals u' }
      (es.map (Entry.overwrite u)) env := by
  obtain ⟨ty, hslot⟩ := h.resolves.slot? hu hknown
  obtain ⟨n, t, he, hself, hwf, hgrows⟩ := Machine.effect_of_store h.wellFormed hop hslot
  obtain ⟨f, fs, ⟨e, hewf, rfl, -, heval⟩, hfs, hstack⟩ := List.forall₂_cons_right_iff.1 h.stack
  have hst : (m.step r).stack = fs := by
    rw [Machine.step, he]
    show [].reverse ++ m.stack.drop 1 = fs
    rw [hstack]
    rfl
  have ht : (m.step r).locals = t := by
    rw [Machine.step, he]
    rfl
  refine ⟨[.assign (decide (slot u ∉ m.assigned)) n e], assignTo env n x, ?_, ?_, ?_, ?_⟩
  · intro p hp
    obtain rfl := List.mem_singleton.1 hp
    exact ⟨hwf.isName_of_get? hself, hewf⟩
  · rw [m.statements_step, he, Machine.operand, hstack]
    simp [Stmt.text]
  · intro qs
    show ((e.eval env).bind fun v => exec (assignTo env n v) qs) = _
    rw [heval ha]
    rfl
  · refine ⟨⟨h.resolves.slotOf, h.resolves.injective⟩, ht ▸ hwf, ?_, ?_, ?_⟩
    · simpa using h.length
    · rw [hst, ht, List.zip_map_right, List.forall₂_map_right_iff]
      exact hfs.imp fun f x hd => (hd.mono hgrows).overwrite hwf h.resolves.injective hknown hself _
    · intro u' y hy
      rw [ht]
      have hy : (if u' = u then some x else v.locals u') = some y := hy
      by_cases e : u' = u
      · subst e
        rw [if_pos rfl] at hy
        exact ⟨hknown, n, hself, (if_pos rfl).trans hy⟩
      · rw [if_neg e] at hy
        obtain ⟨hknown', n', hn', hval⟩ := h.locals u' y hy
        refine ⟨hknown', n', hgrows _ n' hn', (if_neg ?_).trans hval⟩
        rintro rfl
        exact e (h.resolves.injective u' u hknown' hknown
          (hwf.injective _ _ n' (hgrows _ n' hn') hself))

/-- **One step.** Where the value machine and the tracking of stale fragments go on, the fragment
machine goes on with them. -/
theorem Matches.step (h : Matches variableOf slot known m v es env)
    (hr : ∀ u, variableOf r = some u → known u) {v' : Values} {es' : List Entry}
    (hv : v.step variableOf r = some v') (he : track variableOf es r = some es') :
    Continues variableOf slot known m (m.step r) v' es' env := by
  have hread : r.opcode = .copyLoc ∨ r.opcode = .moveLoc →
      Continues variableOf slot known m (m.step r) v' es' env := by
    intro hop
    obtain ⟨u, hu, x, hx, rfl⟩ : ∃ u, variableOf r = some u ∧ ∃ x, v.locals u = some x ∧
        { v with stack := x :: v.stack } = v' := by
      rcases hop with hop | hop <;>
        simpa [Values.step, hop, Option.bind_eq_some_iff, Option.map_eq_some_iff] using hv
    obtain rfl : (⟨[u], false⟩ :: es : List Entry) = es' := by
      rcases hop with hop | hop <;> simpa [track, hop, hu] using he
    exact h.read hop hu hx
  unfold Values.step at hv
  split at hv
  · next hop => exact hread (.inl hop)
  · next hop => exact hread (.inr hop)
  · next w st hop =>
    obtain ⟨ds, hds, rfl⟩ := Option.map_eq_some_iff.1 hv
    obtain rfl : (⟨[], false⟩ :: es : List Entry) = es' := by simpa [track, hop] using he
    exact h.literal hop hds
  · next o y x st hop hst =>
    obtain ⟨p, hp, rfl⟩ := Option.map_eq_some_iff.1 hv
    obtain ⟨stack, locals⟩ := v
    obtain rfl : stack = y :: x :: st := hst
    match es, h.length, h, he with
    | b :: a :: es, _, h, he =>
      obtain rfl : (⟨a.reads ++ b.reads, a.stale || b.stale⟩ :: es : List Entry) = es' := by
        simpa [track, hop] using he
      exact h.operate hop hp
  · next x st hop hst =>
    obtain ⟨u, hu, rfl⟩ := Option.map_eq_some_iff.1 hv
    obtain ⟨stack, locals⟩ := v
    obtain rfl : stack = x :: st := hst
    match es, h.length, h, he with
    | a :: es, _, h, he =>
      obtain ⟨ha, rfl⟩ : a.stale = false ∧ es.map (Entry.overwrite u) = es' := by
        simpa [track, hop, hu] using he
      exact h.store hop ha hu (hr u hu)
  · exact absurd hv (by simp)

/-- **A run.** -/
theorem Matches.run {body : List Instruction} (h : Matches variableOf slot known m v es env)
    (hbody : ∀ r ∈ body, ∀ u, variableOf r = some u → known u) {v' : Values} {es' : List Entry}
    (hv : body.foldlM (Values.step variableOf) v = some v')
    (he : body.foldlM (track variableOf) es = some es') :
    Continues variableOf slot known m (body.foldl Machine.step m) v' es' env := by
  induction body generalizing m v es env with
  | nil =>
    obtain rfl : v = v' := by simpa using hv
    obtain rfl : es = es' := by simpa using he
    exact h.continues_self rfl
  | cons r body ih =>
    rw [List.foldlM_cons] at hv he
    obtain ⟨v₁, hv₁, hv⟩ := Option.bind_eq_some_iff.1 hv
    obtain ⟨es₁, he₁, he⟩ := Option.bind_eq_some_iff.1 he
    obtain ⟨hr, hbody⟩ := List.forall_mem_cons.1 hbody
    obtain ⟨ps, env₁, hps, hlines, hexec, h₁⟩ := h.step hr hv₁ he₁
    obtain ⟨qs, env₂, hqs, hlines', hexec', h₂⟩ := ih h₁ hbody hv he
    refine ⟨ps ++ qs, env₂, ?_, ?_, ?_, h₂⟩
    · exact fun p hp => (List.mem_append.1 hp).elim (hps p) (hqs p)
    · rw [List.foldl_cons, hlines', hlines, List.map_append, List.append_assoc]
    · intro rs
      rw [List.append_assoc, hexec, hexec']

/-- A return writes the fragment on top, which has its value if it is not stale. -/
theorem Matches.returns (h : Matches variableOf slot known m v es env) (hop : r.opcode = .ret)
    (hresult : TypeText.resultCount m.header.returnType.toList = 1) {x : Int} {e : Entry}
    (hx : v.stack.head? = some x) (he : es.head? = some e) (hfresh : e.stale = false) :
    ∃ t : Term, t.WellFormed ∧ t.eval env = some x ∧
      (m.step r).statements = m.statements ++ [(Stmt.ret t).text] := by
  obtain ⟨xs, hxs⟩ := List.head?_eq_some_iff.1 hx
  obtain ⟨es', rfl⟩ := List.head?_eq_some_iff.1 he
  have hstack := h.stack
  rw [hxs] at hstack
  obtain ⟨f, fs, ⟨t, ht, rfl, -, heval⟩, -, hf⟩ := List.forall₂_cons_right_iff.1 hstack
  have heffect : m.effect r =
      { pops := 1, statement := some (Stmt.ret t).text, locals := m.locals } := by
    rw [Machine.effect, hop]
    show m.returnEffect = _
    rw [Machine.returnEffect, hresult]
    simp only [Machine.operand, hf]
    rfl
  refine ⟨t, ht, heval hfresh, ?_⟩
  rw [m.statements_step, heffect]
  rfl

/-! ## Functions -/

/-- The variable has a number of its own: a declared one is there, and no declared one has the
number of one that is not. -/
def Variable.IsOwn (decls : List SlotDecl) : Variable → Prop
  | .parameter _ => True
  | .declared i => i ∈ decls.map (·.slot)
  | .undeclared n => ∀ d ∈ decls.zipIdx, d.1.number d.2 ≠ n

instance (decls : List SlotDecl) : DecidablePred (Variable.IsOwn decls)
  | .parameter _ => inferInstanceAs (Decidable True)
  | .declared i => inferInstanceAs (Decidable (i ∈ decls.map (·.slot)))
  | .undeclared n => inferInstanceAs (Decidable (∀ d ∈ decls.zipIdx, d.1.number d.2 ≠ n))

/-- The variables of a body are told apart: each slot is declared once, no number is given to two of
them, and none that the body counts to for a local without a declaration. -/
structure ToldApart (params : Nat) (decls : List SlotDecl) (body : List Instruction) : Prop where
  once : (decls.map (·.slot)).Nodup
  numbers : NumbersApart decls
  own : ∀ r ∈ body, ∀ u ∈ Variable.ofInstruction? params decls r, u.IsOwn decls

/-- The slot in which a machine holds a variable. -/
def Variable.slotIn (m : Machine) : Variable → Slot
  | .parameter n => .arg n
  | .declared i => .loc ((m.declared.lookup i).getD 0)
  | .undeclared n => .loc n

section Resolution

variable {h : FunctionHeader} {options : MachineOptions} {decls : List SlotDecl}

variable (h options) in
/-- The number of a declared slot. -/
theorem exists_number_of_declared (honce : (decls.map (·.slot)).Nodup) {i : Nat}
    (hi : i ∈ decls.map (·.slot)) :
    ∃ (j : Nat) (d : SlotDecl), decls[j]? = some d ∧ d.slot = i ∧
      (decls.foldl Machine.declare (Machine.start h options)).declared.lookup i =
        some (d.number j) := by
  obtain ⟨d, hd, rfl⟩ := List.mem_map.1 hi
  obtain ⟨j, hj⟩ := List.mem_iff_getElem?.1 hd
  refine ⟨j, d, hj, rfl, ?_⟩
  rw [Machine.lookup_foldl_declare honce (fun _ _ => rfl) hj]
  show some (d.number (0 + j)) = _
  rw [Nat.zero_add]

/-- **The machine finds the slot of a variable**, by a label as by an operand. -/
theorem slotOf?_of_variable (honce : (decls.map (·.slot)).Nodup) {r : Instruction} {u : Variable}
    (hu : Variable.ofInstruction? h.parameters.length decls r = some u) :
    ((decls.foldl Machine.declare (Machine.start h options)).slotOf? r).map (·.1) =
      some (u.slotIn (decls.foldl Machine.declare (Machine.start h options))) := by
  have hheader : (decls.foldl Machine.declare (Machine.start h options)).header = h :=
    (Machine.Reachable.start.foldl_declare decls).header_eq
  have hnumber {i : Nat} (hi : i ∈ decls.map (·.slot)) :=
    exists_number_of_declared h options honce hi
  have hnone {i : Nat} (hi : i ∉ decls.map (·.slot)) :
      (decls.foldl Machine.declare (Machine.start h options)).declared.lookup i = none :=
    Machine.lookup_foldl_declare_of_notMem hi _
  generalize decls.foldl Machine.declare (Machine.start h options) = m at *
  have hlabel : ((r.remark.map fun a => labelAndType a.toList).bind fun p => slot? p.1) =
      r.remark.bind fun a => slot? (labelAndType a.toList).1 := by
    cases r.remark <;> rfl
  unfold Variable.ofInstruction? at hu
  unfold Machine.slotOf?
  dsimp only
  rw [hlabel, hheader]
  split at hu
  · next n hn =>
    obtain rfl := Option.some.inj hu
    rw [hn]
    rfl
  · next n hn =>
    rw [hn]
    split at hu
    · next d hd =>
      obtain rfl := Option.some.inj hu
      obtain ⟨d, j⟩ := d
      have hj : decls[j]? = some d :=
        List.mk_mem_zipIdx_iff_getElem?.1 (List.mem_of_find?_eq_some hd)
      have hfound := List.find?_some hd
      have hdn : d.number j = n := of_decide_eq_true hfound
      obtain ⟨j', d', hj', hslot, hlookup⟩ :=
        hnumber (List.mem_map_of_mem (List.mem_of_getElem? hj))
      obtain rfl := eq_of_slot_eq honce hj' hj hslot
      rw [hj] at hj'
      obtain rfl := Option.some.inj hj'
      show some (Slot.loc n) = some (.loc ((m.declared.lookup d.slot).getD 0))
      rw [hlookup, Option.getD_some, hdn]
    · obtain rfl := Option.some.inj hu
      rfl
  · next hn =>
    rw [hn]
    obtain ⟨i, hi, rfl⟩ := Option.map_eq_some_iff.1 hu
    rw [hi]
    dsimp only [Option.map_some]
    split_ifs with hparameter hdeclared
    · rfl
    · obtain ⟨j, d, -, -, hlookup⟩ := hnumber hdeclared
      rw [Variable.slotIn, hlookup]
      rfl
    · rw [hnone hdeclared]
      rfl

/-- Variables with numbers of their own are in different slots. -/
theorem slotIn_injective (honce : (decls.map (·.slot)).Nodup) (hnumbers : NumbersApart decls)
    {u u' : Variable} (hu : u.IsOwn decls) (hu' : u'.IsOwn decls)
    (heq : u.slotIn (decls.foldl Machine.declare (Machine.start h options)) =
      u'.slotIn (decls.foldl Machine.declare (Machine.start h options))) : u = u' := by
  have hnumber {i : Nat} (hi : i ∈ decls.map (·.slot)) :=
    exists_number_of_declared h options honce hi
  generalize decls.foldl Machine.declare (Machine.start h options) = m at *
  -- a declared slot and a local without a declaration have different numbers
  have hne {i n : Nat} (hi : i ∈ decls.map (·.slot)) (hn : (Variable.undeclared n).IsOwn decls) :
      (m.declared.lookup i).getD 0 ≠ n := by
    obtain ⟨j, d, hj, -, hlookup⟩ := hnumber hi
    rw [hlookup]
    exact hn (d, j) (List.mk_mem_zipIdx_iff_getElem?.2 hj)
  cases u with
  | parameter n =>
    cases u' with
    | parameter n' => rw [Slot.arg.inj heq]
    | declared i' => cases heq
    | undeclared n' => cases heq
  | declared i =>
    cases u' with
    | parameter n' => cases heq
    | declared i' =>
      obtain ⟨j, d, hj, hslot, hlookup⟩ := hnumber hu
      obtain ⟨j', d', hj', hslot', hlookup'⟩ := hnumber hu'
      have heq : (m.declared.lookup i).getD 0 = (m.declared.lookup i').getD 0 := Slot.loc.inj heq
      rw [hlookup, hlookup', Option.getD_some, Option.getD_some] at heq
      obtain rfl := hnumbers.injective hj hj' heq
      rw [hj] at hj'
      obtain rfl := Option.some.inj hj'
      rw [← hslot, hslot']
    | undeclared n' => exact absurd (Slot.loc.inj heq) (hne hu hu')
  | undeclared n =>
    cases u' with
    | parameter n' => cases heq
    | declared i' => exact absurd (Slot.loc.inj heq).symm (hne hu' hu)
    | undeclared n' => rw [Slot.loc.inj heq]

variable (options) in
theorem ToldApart.resolves {body : List Instruction}
    (hapart : ToldApart h.parameters.length decls body) :
    Resolves (Variable.ofInstruction? h.parameters.length decls)
      (Variable.slotIn (decls.foldl Machine.declare (Machine.start h options)))
      (Variable.IsOwn decls) (decls.foldl Machine.declare (Machine.start h options)) where
  slotOf := fun _ _ hu _ => slotOf?_of_variable hapart.once hu
  injective := fun _ _ hu hu' heq => slotIn_injective hapart.once hapart.numbers hu hu' heq

end Resolution

/-- The environment in which parameters have the values of arguments. -/
def parameterEnv (ps : List Parameter) (args : List Int) (n : String) : Option Int :=
  ((ps.map (·.name)).zip args).lookup n

theorem lookup_zip {names : List String} {args : List Int} {i : Nat} {n : String} {x : Int}
    (hfirst : ∀ j, names[j]? = some n → j = i) (hn : names[i]? = some n) (hx : args[i]? = some x) :
    (names.zip args).lookup n = some x := by
  induction names generalizing args i with
  | nil => exact absurd hn (by simp)
  | cons n₀ names ih =>
    cases args with
    | nil => exact absurd hx (by simp)
    | cons a args =>
      rw [List.zip_cons_cons, List.lookup_cons]
      cases i with
      | zero =>
        obtain rfl : n₀ = n := by simpa using hn
        obtain rfl : a = x := by simpa using hx
        simp
      | succ i =>
        have hne : n ≠ n₀ := by
          rintro rfl
          exact absurd (hfirst 0 rfl) (by omega)
        rw [beq_false_of_ne hne]
        refine ih (fun j hj => ?_) (by simpa using hn) (by simpa using hx)
        have := hfirst (j + 1) (by simpa using hj)
        omega

/-- At the end of a run as at its start, a parameter has its value under its name. -/
theorem parameterEnv_namedParameters {h : FunctionHeader} {options : MachineOptions} {m : Machine}
    (hm : Machine.Reachable h options m) {i : Nat} (hi : i < h.parameters.length) {n : String}
    (hn : (Machine.parameterTable h).get? (.arg i) = some n)
    (hgrows : (Machine.parameterTable h).Extends m.locals) {args : List Int} {x : Int}
    (hx : args[i]? = some x) : parameterEnv m.namedParameters args n = some x := by
  have hnames : ∀ j n', (m.namedParameters.map (·.name))[j]? = some n' →
      j < h.parameters.length ∧ m.locals.get? (.arg j) = some n' := by
    intro j n' hj
    rw [Machine.namedParameters, hm.header_eq, List.getElem?_map, List.getElem?_mapIdx,
      Option.map_map] at hj
    obtain ⟨p, hp, rfl⟩ := Option.map_eq_some_iff.1 hj
    obtain ⟨hlt, -⟩ := List.getElem?_eq_some_iff.1 hp
    obtain ⟨n', hn'⟩ := Machine.get?_parameterTable h hlt
    refine ⟨hlt, ?_⟩
    show _ = some ((m.locals.get? (.arg j)).getD p.name)
    rw [hgrows _ _ hn']
    rfl
  refine lookup_zip (i := i) (fun j hj => ?_) ?_ hx
  · have := hm.wellFormed.injective _ _ _ (hnames j n hj).2 (hgrows _ _ hn)
    exact Slot.arg.inj this
  · obtain ⟨p, hp⟩ : ∃ p, h.parameters[i]? = some p := ⟨_, List.getElem?_eq_getElem hi⟩
    rw [Machine.namedParameters, hm.header_eq, List.getElem?_map, List.getElem?_mapIdx, hp]
    show some ((m.locals.get? (.arg i)).getD p.name) = some n
    rw [hgrows _ _ hn]
    rfl

/-- Before the first instruction there is nothing on the stack, and parameters have their values. -/
theorem ToldApart.matches_start {h : FunctionHeader} (options : MachineOptions)
    {decls : List SlotDecl} {body : List Instruction}
    (hapart : ToldApart h.parameters.length decls body) {args : List Int}
    (hargs : args.length = h.parameters.length) (env : String → Option Int)
    (henv : ∀ i n x, i < h.parameters.length → (Machine.parameterTable h).get? (.arg i) = some n →
      args[i]? = some x → env n = some x) :
    Matches (Variable.ofInstruction? h.parameters.length decls)
      (Variable.slotIn (decls.foldl Machine.declare (Machine.start h options)))
      (Variable.IsOwn decls) (decls.foldl Machine.declare (Machine.start h options))
      { locals := fun
          | .parameter i => args[i]?
          | _ => none } [] env := by
  have hstart : Machine.Reachable h options (Machine.start h options) := .start
  have hreach := hstart.foldl_declare decls
  have hempty : (decls.foldl Machine.declare (Machine.start h options)).stack = [] := by
    obtain ⟨t, declared, e⟩ := Machine.foldl_declare_eq decls (Machine.start h options)
    rw [e]
    rfl
  refine ⟨hapart.resolves options, hreach.wellFormed, rfl, hempty ▸ .nil, ?_⟩
  intro u x hx
  cases u with
  | declared i => exact absurd hx (by simp)
  | undeclared n => exact absurd hx (by simp)
  | parameter i =>
    have hi : i < h.parameters.length := hargs ▸ (List.getElem?_eq_some_iff.1 hx).1
    obtain ⟨n, hn⟩ := Machine.get?_parameterTable h hi
    have hgrows := (Machine.start h options).extends_foldl_declare decls
    exact ⟨trivial, n, hgrows _ _ hn, henv i n x hi hn hx⟩

/-- **Fresh straight-line code keeps its value.** For every function with one result, every body of
reads, literals, arithmetic and stores whose variables are told apart, with a return at its end, and
all arguments: if the body has the value `v` and no fragment is used after a store into a variable
that it reads, then the statements written for it return `v`, and nothing else, where the parameters
have the names that the result gives them. -/
theorem returns_iff_of_fresh (h : FunctionHeader) (options : MachineOptions) (decls : List SlotDecl)
    (body : List Instruction) (ret : Instruction) (args : List Int) (v : Int)
    (hret : ret.opcode = .ret) (hresult : TypeText.resultCount h.returnType.toList = 1)
    (hargs : args.length = h.parameters.length) (hapart : ToldApart h.parameters.length decls body)
    (hv : evaluate (Variable.ofInstruction? h.parameters.length decls) args body = some v)
    (hfresh : Fresh (Variable.ofInstruction? h.parameters.length decls) body = true) :
    let i := interpret h ⟨decls, body ++ [ret]⟩ options
    ∀ w, Returns i.function.statements (parameterEnv i.function.parameters args) w ↔ w = v := by
  intro i
  have hstart : Machine.Reachable h options (Machine.start h options) := .start
  have hreach := hstart.foldl_declare decls
  have hM := hreach.foldl_step body
  have hgrows : (Machine.parameterTable h).Extends
      ((body.foldl Machine.step
        (decls.foldl Machine.declare (Machine.start h options))).step ret).locals :=
    ((Machine.start h options).extends_foldl_declare decls).trans
      ((Machine.extends_foldl_step _ body).trans (Machine.extends_step _ ret))
  have hi : i = ((body.foldl Machine.step
      (decls.foldl Machine.declare (Machine.start h options))).step ret).result := by
    show (Machine.run _ _).result = _
    rw [Machine.run, List.foldl_append]
    rfl
  have hnothing : (decls.foldl Machine.declare (Machine.start h options)).statements = [] := by
    obtain ⟨t, declared, e⟩ := Machine.foldl_declare_eq decls (Machine.start h options)
    rw [e]
    rfl
  have hmatch := hapart.matches_start options hargs (parameterEnv i.function.parameters args)
    fun k n x hk hn hx => hi ▸ parameterEnv_namedParameters (hM.step ret) hk hn hgrows hx
  -- the value machine and the tracking of stale fragments at the return
  obtain ⟨v', hv, hx⟩ := Option.bind_eq_some_iff.1 hv
  obtain ⟨e, he, hstale⟩ := Option.any_eq_true _ _ |>.1 hfresh
  obtain ⟨es', he, hhead⟩ := Option.bind_eq_some_iff.1 he
  obtain ⟨ps, env', hps, hlines, hexec, hrun⟩ := hmatch.run hapart.own hv he
  obtain ⟨t, ht, heval, hreturn⟩ :=
    hrun.returns hret (by rw [hM.header_eq, hresult]) hx hhead (by simpa using hstale)
  have hstatements : i.function.statements = (ps ++ [Stmt.ret t]).map Stmt.text := by
    rw [hi]
    show Machine.statements _ = _
    rw [hreturn, hlines, hnothing, List.nil_append, List.map_append]
    rfl
  have hreturns : Returns i.function.statements (parameterEnv i.function.parameters args) v := by
    refine ⟨ps ++ [.ret t], ?_, hstatements.symm, ?_⟩
    · exact List.forall_mem_append.2 ⟨hps, List.forall_mem_singleton.2 ht⟩
    · rw [hexec]
      exact heval
  exact fun w => ⟨fun hw => hw.unique hreturns, fun e => e ▸ hreturns⟩

/-! ### A fresh body, and one that is not -/

/-- A function of one parameter with one result. -/
def growHeader : FunctionHeader where
  name := "grow"
  parameters := [⟨"amount", "u64"⟩]
  returnType := "u64"

/-- The locals of that function. -/
def growLocals : List SlotDecl := [⟨1, "sum", "u64"⟩, ⟨2, "loc4", "u64"⟩]

/-- A sum stored into a local, and a product with it. -/
def growBody : List Instruction :=
  [⟨0, .copyLoc, some "0", some "Arg0: u64"⟩, ⟨1, .ldInt .u64, none, some "5"⟩,
    ⟨2, .binary .add, none, none⟩, ⟨3, .stLoc, some "1", none⟩,
    ⟨4, .moveLoc, none, some "loc0: u64"⟩,
    ⟨5, .copyLoc, some "0", none⟩, ⟨6, .binary .mul, none, none⟩]

/-- A parameter read, then stored into. What was read is still on the stack. -/
def overwriteBody : List Instruction :=
  [⟨0, .copyLoc, none, some "Arg0: u64"⟩, ⟨1, .ldInt .u64, none, some "5"⟩,
    ⟨2, .stLoc, none, some "Arg0: u64"⟩]

/-- The lines of `growBody` return what it computes from 7. -/
theorem returns_growBody :
    growHeader.parameters.length = 1 ∧ TypeText.resultCount growHeader.returnType.toList = 1 ∧
    ToldApart 1 growLocals growBody ∧
    evaluate (Variable.ofInstruction? 1 growLocals) [7] growBody = some 84 ∧
    Fresh (Variable.ofInstruction? 1 growLocals) growBody = true ∧
    let i := interpret growHeader ⟨growLocals, growBody ++ [⟨7, .ret, none, none⟩]⟩ {}
    i.function.statements = ["let amount_1 = (amount + 5);", "return (amount_1 * amount);"] ∧
    Returns i.function.statements (parameterEnv i.function.parameters [7]) 84 := by
  have hapart : ToldApart 1 growLocals growBody :=
    ⟨by decide, ⟨by decide, by decide⟩, by decide +kernel⟩
  have hv : evaluate (Variable.ofInstruction? 1 growLocals) [7] growBody = some 84 := by
    decide +kernel
  have hfresh : Fresh (Variable.ofInstruction? 1 growLocals) growBody = true := by decide +kernel
  refine ⟨rfl, by decide, hapart, hv, hfresh, by decide +kernel, ?_⟩
  exact (returns_iff_of_fresh growHeader {} growLocals growBody ⟨7, .ret, none, none⟩ [7] 84 rfl
    (by decide) rfl hapart hv hfresh 84).2 rfl

/-- **A fragment outlives what it reads.** The body has the value 7, as the parameter had it when it
was read; the lines written for it return 5, as it has it when it is used. -/
theorem returns_overwritten :
    ToldApart 1 [] overwriteBody ∧
    evaluate (Variable.ofInstruction? 1 []) [7] overwriteBody = some 7 ∧
    let i := interpret growHeader ⟨[], overwriteBody ++ [⟨3, .ret, none, none⟩]⟩ {}
    i.function.statements = ["amount = 5;", "return amount;"] ∧
    ∀ w, Returns i.function.statements (parameterEnv i.function.parameters [7]) w ↔ w = 5 := by
  have hlines :
      (interpret growHeader
          ⟨[], overwriteBody ++ [⟨3, .ret, none, none⟩]⟩ {}).function.statements =
        ["amount = 5;", "return amount;"] := by decide +kernel
  refine ⟨⟨by decide, ⟨by decide, by decide⟩, by decide +kernel⟩, by decide +kernel,
    hlines, fun w => ?_⟩
  have h : ∀ env, Returns ["amount = 5;", "return amount;"] env 5 := by
    intro env
    refine ⟨[.assign false "amount" (.lit "5"), .ret (.var "amount")], ?_, by decide, rfl⟩
    rw [List.forall_mem_cons, List.forall_mem_singleton]
    exact ⟨⟨by decide, by decide, by decide⟩, show IsName _ by decide⟩
  rw [hlines]
  exact ⟨fun hw => hw.unique (h _), fun e => e ▸ h _⟩

/-- Two slots that are given one number are two variables, and the lines write one. -/
example :
    let decls : List SlotDecl := [⟨0, "x", "u64"⟩, ⟨1, "loc0", "u64"⟩]
    let body : List Instruction :=
      [⟨0, .ldInt .u64, none, some "1"⟩, ⟨1, .stLoc, some "0", none⟩,
        ⟨2, .ldInt .u64, none, some "2"⟩, ⟨3, .stLoc, some "1", none⟩,
        ⟨4, .copyLoc, some "0", none⟩]
    evaluate (Variable.ofInstruction? 0 decls) [] body = some 1 ∧
      (interpret { name := "f", returnType := "u64" }
          ⟨decls, body ++ [⟨5, .ret, none, none⟩]⟩ {}).function.statements =
        ["let amount = 1;", "amount = 2;", "return amount;"] := by
  decide +kernel

end PseudoMove.Arithmetic
