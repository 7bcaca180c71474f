import PseudoMove.Proofs.NameTable
import PseudoMove.Proofs.StackEffect
import Mathlib.Data.List.Forall2

/-!
# The names of a run

A machine takes declarations of slots and instructions in any order (`Operation`).  Some of the
statements it writes name their left side: a store names its slot, with `let` the first time,
and a call with several results declares a name for each of them (`Target`).  The targets of a
run in order are its history.

* `LocalNames.Grows` — what any operation does to the table: entries are added at the end, and
  their names were not in use;
* `History` — the invariant that keeps the history, the table and the set of assigned slots in step:
  a name has been declared just when it is the name of an assigned slot that is no parameter, or was
  handed out for a result;
* `names_distinct_and_stable` — no name is given twice, and none changes;
* `declared_once` — no name is declared twice, and none is assigned before it is declared.
-/

namespace PseudoMove

/-! ## Tables that grow -/

namespace LocalNames

variable {t t' t'' : LocalNames}

/-- The table `t'` comes from `t` by handing out names, to slots or without one. -/
structure Grows (t t' : LocalNames) : Prop where
  /-- Entries are added at the end. -/
  names : t.names <+: t'.names
  /-- What is in use stays in use. -/
  used : t.supply.used ⊆ t'.supply.used
  /-- A new entry has a name that was not in use. -/
  fresh : ∀ slot name, t'.get? slot = some name → t.get? slot = some name ∨ name ∉ t.supply.used

theorem Grows.refl (t : LocalNames) : t.Grows t where
  names := List.prefix_rfl
  used := List.Subset.refl _
  fresh _ _ h := Or.inl h

theorem Grows.trans (h : t.Grows t') (h' : t'.Grows t'') : t.Grows t'' where
  names := h.names.trans h'.names
  used := List.Subset.trans h.used h'.used
  fresh slot name hn := by
    rcases h'.fresh slot name hn with hn | hn
    · exact h.fresh slot name hn
    · exact Or.inr fun hu => hn (h.used hu)

/-- An entry stays what it is. -/
theorem Grows.extends (h : t.Grows t') : t.Extends t' := by
  intro slot name hn
  obtain ⟨new, hnew⟩ := h.names
  show t'.names.lookup slot = some name
  rw [← hnew, List.lookup_append, show t.names.lookup slot = some name from hn, Option.some_or]

theorem grows_bind (t : LocalNames) (slot : Slot) (base : String) :
    t.Grows (t.bind slot base).2 := by
  cases h : t.get? slot with
  | some name =>
    rw [bind_of_get? h]
    exact Grows.refl t
  | none =>
    refine ⟨?_, ?_, ?_⟩
    · rw [bind_of_get?_none h]
      exact List.prefix_append _ _
    · rw [bind_of_get?_none h]
      exact List.subset_cons_self _ _
    · intro s name hs
      rw [get?_bind, bind_of_get?_none h] at hs
      split at hs
      · obtain rfl := Option.some.inj hs
        exact Or.inr (t.supply.fresh_notMem base)
      · exact Or.inl hs

theorem grows_temporaries (t : LocalNames) (base : String) (n : Nat) :
    t.Grows (t.temporaries base n).2 := by
  induction n generalizing t with
  | zero => exact Grows.refl t
  | succ n ih =>
    have hone : t.Grows (t.temporary base).2 :=
      ⟨List.prefix_rfl, List.subset_cons_self _ _, fun _ _ h => Or.inl h⟩
    exact hone.trans (ih _)

/-- Names handed out together were not in use, and are distinct. -/
theorem nodup_temporaries (t : LocalNames) (base : String) (n : Nat) :
    (∀ name ∈ (t.temporaries base n).1, name ∉ t.supply.used) ∧ (t.temporaries base n).1.Nodup := by
  induction n generalizing t with
  | zero => exact ⟨fun name h => absurd h List.not_mem_nil, List.nodup_nil⟩
  | succ n ih =>
    -- the rest is handed out with the first name in use
    obtain ⟨hfree, hnodup⟩ := ih (t.temporary base).2
    have hnew : ∀ name ∈ ((t.temporary base).2.temporaries base n).1,
        name ≠ (t.temporary base).1 ∧ name ∉ t.supply.used :=
      fun name h => by simpa [temporary, NameSupply.used_fresh] using hfree name h
    refine ⟨?_, List.nodup_cons.2 ⟨fun h => (hnew _ h).1 rfl, hnodup⟩⟩
    intro name h
    rcases List.mem_cons.1 h with rfl | h
    · exact t.supply.fresh_notMem base
    · exact (hnew name h).2

end LocalNames

/-! ## Operations -/

/-- What may be done to a machine: a slot is declared, or an instruction is run. -/
inductive Operation where
  | declare (d : SlotDecl)
  | step (r : Instruction)

/-- The left side of a statement: the name of a slot stored into for the first time, the names of
the results of a call, or the name of a slot stored into again. -/
inductive Target where
  | new (name : String)
  | results (names : List String)
  | old (name : String)
deriving DecidableEq

namespace Target

/-- The text of a left side. -/
def text : Target → String
  | .new name => "let " ++ name
  | .results names => "let (" ++ Fragment.commaList names ++ ")"
  | .old name => name

/-- The statement that stores a value. -/
def store (t : Target) (value : String) : String := t.text ++ " = " ++ value ++ ";"

/-- The names declared. -/
def declared : Target → List String
  | .new name => [name]
  | .results names => names
  | .old _ => []

/-- The names that belong to no slot. -/
def temporaries : Target → List String
  | .results names => names
  | _ => []

theorem temporaries_sublist (t : Target) : t.temporaries.Sublist t.declared := by
  cases t with
  | new name => exact List.nil_sublist _
  | results names => exact List.Sublist.refl _
  | old name => exact List.Sublist.refl _

end Target

/-- The names that targets declare, in order. -/
def declaredNames (ts : List Target) : List String := ts.flatMap Target.declared

/-- The names among them that belong to no slot. -/
def temporaryNames (ts : List Target) : List String := ts.flatMap Target.temporaries

theorem declaredNames_append (ts us : List Target) :
    declaredNames (ts ++ us) = declaredNames ts ++ declaredNames us := List.flatMap_append

theorem temporaryNames_append (ts us : List Target) :
    temporaryNames (ts ++ us) = temporaryNames ts ++ temporaryNames us := List.flatMap_append

theorem temporaryNames_sublist (ts : List Target) :
    (temporaryNames ts).Sublist (declaredNames ts) := by
  induction ts with
  | nil => exact List.Sublist.refl _
  | cons t ts ih => exact t.temporaries_sublist.append ih

namespace Machine

variable {h : FunctionHeader} {options : MachineOptions} {m : Machine}

/-- Carries out an operation. -/
def act (m : Machine) : Operation → Machine
  | .declare d => m.declare d
  | .step r => m.step r

/-- Carries out operations, one after the other. -/
def actAll (m : Machine) (os : List Operation) : Machine := os.foldl act m

/-- The left side of the statement that an instruction writes, if it stores into a slot or
takes several results. -/
def target? (m : Machine) (r : Instruction) : Option Target :=
  match r.opcode with
  | .stLoc =>
    (m.slotOf? r).map fun p =>
      let name := (m.localUse r).name
      if p.1 ∈ m.assigned then .old name else .new name
  | .call =>
    (callee? r).bind fun f =>
      if 2 ≤ f.resultCount then some (.results (m.locals.temporaries "result" f.resultCount).1)
      else none
  | _ => none

/-- The left side that an operation writes. -/
def targetOf? (m : Machine) : Operation → Option Target
  | .declare _ => none
  | .step r => m.target? r

/-- The left sides that operations write, in order. -/
def targets (m : Machine) : List Operation → List Target
  | [] => []
  | o :: os => (m.targetOf? o).toList ++ (m.act o).targets os

theorem actAll_append (m : Machine) (os os' : List Operation) :
    m.actAll (os ++ os') = (m.actAll os).actAll os' := List.foldl_append

theorem Reachable.act (hm : Reachable h options m) (o : Operation) :
    Reachable h options (m.act o) := by
  cases o with
  | declare d => exact hm.declare d
  | step r => exact hm.step r

theorem Reachable.actAll (hm : Reachable h options m) (os : List Operation) :
    Reachable h options (m.actAll os) := by
  induction os generalizing m with
  | nil => exact hm
  | cons o os ih => exact ih (hm.act o)

/-! ### What an operation does to names -/

theorem grows_localUse (m : Machine) (r : Instruction) : m.locals.Grows (m.localUse r).locals := by
  unfold localUse
  split
  · exact LocalNames.Grows.refl _
  · exact LocalNames.grows_bind _ _ _

theorem grows_act (m : Machine) (o : Operation) : m.locals.Grows (m.act o).locals := by
  cases o with
  | declare d => exact LocalNames.grows_bind _ _ _
  | step r =>
    show m.locals.Grows (m.effect r).locals
    rcases m.locals_effect r with e | e | ⟨n, e⟩ <;> rw [e]
    · exact LocalNames.Grows.refl _
    · exact m.grows_localUse r
    · exact LocalNames.grows_temporaries _ _ _

theorem grows_actAll (m : Machine) (os : List Operation) : m.locals.Grows (m.actAll os).locals := by
  induction os generalizing m with
  | nil => exact LocalNames.Grows.refl _
  | cons o os ih => exact (m.grows_act o).trans (ih _)

/-- The effect of a call with several results: a name for each is declared and pushed. -/
theorem effect_of_results (m : Machine) {r : Instruction} {f : Callee} (hop : r.opcode = .call)
    (hf : callee? r = some f) (hn : 2 ≤ f.resultCount) :
    ∃ call, m.effect r =
      { pops := f.arity
        pushes := (m.locals.temporaries "result" f.resultCount).1
        statement :=
          some ((Target.results (m.locals.temporaries "result" f.resultCount).1).store call)
        locals := (m.locals.temporaries "result" f.resultCount).2 } := by
  rw [m.effect_call hop hf, callEffect]
  dsimp only
  split
  · next h0 => omega
  · next h1 => omega
  · refine ⟨f.render m.options.keepTypeArguments ++ "(" ++
      Fragment.commaList (m.operands f.arity) ++ ")", ?_⟩
    have hlit : (") = " : String) = ")" ++ " = " := by decide
    simp only [Target.store, Target.text, String.append_assoc]
    rw [hlit, String.append_assoc]

/-- Only a store into a slot assigns one. -/
theorem assigned_effect (m : Machine) {r : Instruction} (hop : r.opcode ≠ .stLoc) :
    (m.effect r).assigned = none := by
  revert hop
  unfold effect
  cases r.opcode
  case stLoc => exact fun hop => absurd rfl hop
  case call =>
    intro _
    dsimp only
    split
    · unfold callEffect
      dsimp only
      split <;> rfl
    · rfl
  case ret =>
    intro _
    show m.returnEffect.assigned = none
    unfold returnEffect
    split <;> rfl
  all_goals exact fun _ => rfl

/-- What an instruction does to the table and to the assigned slots, in the four cases of its
target. -/
inductive Names (m : Machine) (r : Instruction) : Option Target → Prop
  | none (assigned : (m.step r).assigned = m.assigned) : Names m r none
  | new {s : Slot} {name : String} (first : s ∉ m.assigned)
      (bound : (m.step r).locals.get? s = some name)
      (assigned : (m.step r).assigned = s :: m.assigned) : Names m r (some (.new name))
  | old {s : Slot} {name : String} (again : s ∈ m.assigned)
      (bound : (m.step r).locals.get? s = some name)
      (assigned : (m.step r).assigned = m.assigned) : Names m r (some (.old name))
  | results (n : Nat) (table : (m.step r).locals = (m.locals.temporaries "result" n).2)
      (assigned : (m.step r).assigned = m.assigned) :
      Names m r (some (.results (m.locals.temporaries "result" n).1))

theorem names_step (hm : m.locals.WellFormed) (r : Instruction) : m.Names r (m.target? r) := by
  have hassigned : (m.step r).assigned = (m.effect r).assigned.toList ++ m.assigned := rfl
  have hlocals : (m.step r).locals = (m.effect r).locals := rfl
  by_cases hst : r.opcode = .stLoc
  · -- a store
    have htarget : m.target? r = (m.slotOf? r).map fun p =>
        if p.1 ∈ m.assigned then Target.old (m.localUse r).name else .new (m.localUse r).name := by
      rw [target?, hst]
    cases hs : m.slotOf? r with
    | none =>
      rw [htarget, hs]
      refine .none ?_
      rw [hassigned, effect, hst]
      simp [storeEffect, localUse, hs]
    | some p =>
      obtain ⟨s, ty⟩ := p
      obtain ⟨name, t, huse, hbound, -, -⟩ := localUse_of_slotOf? hm hs
      have heffect : m.effect r = m.storeEffect r := by rw [effect, hst]
      rw [heffect, storeEffect, huse] at hlocals hassigned
      simp only [Option.any_some, decide_eq_true_eq] at hlocals hassigned
      rw [htarget, hs, Option.map_some, huse]
      by_cases h : s ∈ m.assigned
      · rw [if_pos h]
        exact .old h (by rw [hlocals]; exact hbound) (by rw [hassigned]; simp [h])
      · rw [if_neg h]
        exact .new h (by rw [hlocals]; exact hbound) (by rw [hassigned]; simp [h])
  · rw [m.assigned_effect hst] at hassigned
    by_cases hcall : ∃ f, r.opcode = .call ∧ callee? r = some f ∧ 2 ≤ f.resultCount
    · -- a call with several results
      obtain ⟨f, hop, hf, hn⟩ := hcall
      obtain ⟨call, heffect⟩ := m.effect_of_results hop hf hn
      have htarget : m.target? r =
          some (.results (m.locals.temporaries "result" f.resultCount).1) := by
        rw [target?, hop, hf]
        exact if_pos hn
      rw [htarget]
      exact .results f.resultCount (by rw [hlocals, heffect]) hassigned
    · have htarget : m.target? r = none := by
        unfold target?
        split
        · next e => exact absurd e hst
        · next e =>
          refine Option.bind_eq_none_iff.2 fun f hf => if_neg fun hn => hcall ⟨f, e, hf, hn⟩
        · rfl
      rw [htarget]
      exact .none hassigned

/-- The target of an instruction is the left side of the statement that it writes. -/
theorem statement_of_target? (m : Machine) {r : Instruction} {t : Target}
    (ht : m.target? r = some t) :
    ∃ value, (m.effect r).statement = some (t.store value) := by
  unfold target? at ht
  split at ht
  · next hop =>
    obtain ⟨⟨s, ty⟩, hs, rfl⟩ := Option.map_eq_some_iff.1 ht
    refine ⟨m.operand 0, ?_⟩
    have hslot : (m.localUse r).slot = some s := by rw [localUse, hs]
    have heffect : m.effect r = m.storeEffect r := by rw [effect, hop]
    rw [heffect, storeEffect, hslot]
    by_cases h : s ∈ m.assigned <;> simp [h, Target.store, Target.text]
  · next hop =>
    obtain ⟨f, hf, ht⟩ := Option.bind_eq_some_iff.1 ht
    split at ht
    · next hn =>
      obtain rfl := Option.some.inj ht
      obtain ⟨call, heffect⟩ := m.effect_of_results hop hf hn
      exact ⟨call, by rw [heffect]⟩
    · exact absurd ht (by simp)
  · exact absurd ht (by simp)

/-- The targets of a run are the left sides of statements it writes, in the same order. -/
theorem sublist_statements (m : Machine) (os : List Operation) :
    ∃ lines, List.Forall₂ (fun t line => ∃ value, line = t.store value) (m.targets os) lines ∧
      (m.statements ++ lines).Sublist (m.actAll os).statements := by
  induction os generalizing m with
  | nil => exact ⟨[], .nil, by rw [List.append_nil]; exact List.Sublist.refl _⟩
  | cons o os ih =>
    obtain ⟨lines, hlines, hsub⟩ := ih (m.act o)
    -- the operation writes its target, perhaps another statement, or nothing
    obtain ⟨line, hline, hone⟩ : ∃ line, List.Forall₂ (fun t line => ∃ value, line = t.store value)
        (m.targetOf? o).toList line ∧ (m.statements ++ line).Sublist (m.act o).statements := by
      cases o with
      | declare d => exact ⟨[], .nil, by rw [List.append_nil]; exact List.Sublist.refl _⟩
      | step r =>
        have hstep : (m.act (.step r)).statements = m.statements ++ (m.effect r).statement.toList :=
          m.statements_step r
        cases ht : m.target? r with
        | none =>
          refine ⟨[], ?_, ?_⟩
          · show List.Forall₂ _ (m.target? r).toList _
            rw [ht]
            exact .nil
          · rw [hstep, List.append_nil]
            exact List.sublist_append_left _ _
        | some t =>
          obtain ⟨value, hv⟩ := m.statement_of_target? ht
          refine ⟨[t.store value], ?_, ?_⟩
          · show List.Forall₂ _ (m.target? r).toList _
            rw [ht]
            exact .cons ⟨value, rfl⟩ .nil
          · rw [hstep, hv]
            exact List.Sublist.refl _
    refine ⟨line ++ lines, List.rel_append hline hlines, ?_⟩
    rw [← List.append_assoc]
    exact (hone.append_right lines).trans hsub

end Machine

/-! ## The invariant -/

/-- The slot is one of the function's parameters. -/
def IsParameter (h : FunctionHeader) (s : Slot) : Prop := ∃ i < h.parameters.length, s = .arg i

/-- What holds of the history of a run, its table and its assigned slots. -/
structure History (h : FunctionHeader) (ts : List Target) (t : LocalNames) (assigned : List Slot) :
    Prop where
  /-- No name is declared twice. -/
  nodup : (declaredNames ts).Nodup
  /-- A declared name is in use. -/
  used : ∀ n ∈ declaredNames ts, n ∈ t.supply.used
  /-- The name of a result is the name of no slot. -/
  unbound : ∀ n ∈ temporaryNames ts, ∀ s, t.get? s ≠ some n
  /-- A slot whose name is declared has been assigned, and is no parameter. -/
  stored : ∀ s n, t.get? s = some n → n ∈ declaredNames ts → s ∈ assigned ∧ ¬ IsParameter h s
  /-- An assigned slot has a name, which is declared unless the slot is a parameter. -/
  named : ∀ s ∈ assigned, ∃ n, t.get? s = some n ∧ (IsParameter h s ∨ n ∈ declaredNames ts)
  /-- Parameters are assigned. -/
  parameters : ∀ s, IsParameter h s → s ∈ assigned
  /-- A name assigned again is a parameter's, or was declared before. -/
  ordered : ∀ before name after, ts = before ++ .old name :: after →
    (∃ s, IsParameter h s ∧ t.get? s = some name) ∨ name ∈ declaredNames before

/-- An element of a list with one more at the end stands in the list, or is that one. -/
theorem append_singleton_eq_append_cons {α : Type} {xs before after : List α} {x y : α}
    (e : xs ++ [x] = before ++ y :: after) :
    (∃ after', xs = before ++ y :: after') ∨ (before = xs ∧ y = x) := by
  rcases List.eq_nil_or_concat after with rfl | ⟨after', z, rfl⟩
  · obtain ⟨h, e⟩ := List.append_inj' e rfl
    exact Or.inr ⟨h.symm, (List.cons.inj e).1.symm⟩
  · rw [List.concat_eq_append, ← List.cons_append, ← List.append_assoc] at e
    exact Or.inl ⟨after', (List.append_inj' e rfl).1⟩

namespace History

variable {h : FunctionHeader} {options : MachineOptions} {m : Machine} {ts : List Target}
variable {t t' : LocalNames} {assigned : List Slot} {s : Slot} {name : String}

theorem start (h : FunctionHeader) (options : MachineOptions) :
    History h [] (Machine.start h options).locals (Machine.start h options).assigned := by
  have hassigned : ∀ s, s ∈ (Machine.start h options).assigned ↔ IsParameter h s := by
    intro s
    show s ∈ (List.range h.parameters.length).map Slot.arg ↔ _
    simp only [List.mem_map, List.mem_range, IsParameter, eq_comm]
  refine ⟨List.nodup_nil, ?_, ?_, ?_, ?_, ?_, ?_⟩
  · exact fun n hn => absurd hn List.not_mem_nil
  · exact fun n hn => absurd hn List.not_mem_nil
  · exact fun s n _ hn => absurd hn List.not_mem_nil
  · intro s hs
    obtain ⟨i, hi, rfl⟩ := (hassigned s).1 hs
    obtain ⟨n, hn⟩ := Machine.get?_parameterTable h hi
    exact ⟨n, hn, Or.inl ⟨i, hi, rfl⟩⟩
  · exact fun s hs => (hassigned s).2 hs
  · exact fun before name after e => absurd e (by simp)

/-- The table grows. -/
theorem grow (H : History h ts t assigned) (ht : t.Grows t') : History h ts t' assigned := by
  -- an entry with a name of the history is an old one
  have hold : ∀ s n, t'.get? s = some n → n ∈ declaredNames ts → t.get? s = some n :=
    fun s n hn hd => (ht.fresh s n hn).resolve_right fun hu => hu (H.used n hd)
  refine ⟨H.nodup, fun n hn => ht.used (H.used n hn), ?_, ?_, ?_, H.parameters, ?_⟩
  · intro n hn s hs
    exact H.unbound n hn s (hold s n hs ((temporaryNames_sublist ts).subset hn))
  · exact fun s n hs hn => H.stored s n (hold s n hs hn) hn
  · intro s hs
    obtain ⟨n, hn, hd⟩ := H.named s hs
    exact ⟨n, ht.extends s n hn, hd⟩
  · intro before name after e
    rcases H.ordered before name after e with ⟨s, hs, hn⟩ | hn
    · exact Or.inl ⟨s, hs, ht.extends s name hn⟩
    · exact Or.inr hn

/-- A slot is stored into for the first time. -/
theorem new (H : History h ts t assigned) (ht : t.WellFormed) (hs : s ∉ assigned)
    (hn : t.get? s = some name) : History h (ts ++ [.new name]) t (s :: assigned) := by
  have hd : declaredNames (ts ++ [.new name]) = declaredNames ts ++ [name] :=
    declaredNames_append _ _
  have htemp : temporaryNames (ts ++ [.new name]) = temporaryNames ts := by
    rw [temporaryNames_append]
    exact List.append_nil _
  have hnot : name ∉ declaredNames ts := fun hmem => hs (H.stored s name hn hmem).1
  refine ⟨?_, ?_, ?_, ?_, ?_, ?_, ?_⟩
  · rw [hd]
    exact List.nodup_append.2 ⟨H.nodup, by simp, by
      rintro a ha b hb rfl
      exact hnot (List.mem_singleton.1 hb ▸ ha)⟩
  · intro n hmem
    rw [hd, List.mem_append, List.mem_singleton] at hmem
    rcases hmem with hmem | rfl
    · exact H.used n hmem
    · exact ht.mem_used s n hn
  · rw [htemp]
    exact H.unbound
  · intro s' n hn' hmem
    rw [hd, List.mem_append, List.mem_singleton] at hmem
    rcases hmem with hmem | rfl
    · obtain ⟨ha, hp⟩ := H.stored s' n hn' hmem
      exact ⟨List.mem_cons_of_mem _ ha, hp⟩
    · obtain rfl := ht.injective s' s n hn' hn
      exact ⟨List.mem_cons_self, fun hp => hs (H.parameters s' hp)⟩
  · intro s' hs'
    rw [hd]
    rcases List.mem_cons.1 hs' with rfl | hs'
    · exact ⟨name, hn, Or.inr (List.mem_append_right _ List.mem_cons_self)⟩
    · obtain ⟨n, hn', hor⟩ := H.named s' hs'
      exact ⟨n, hn', hor.imp_right (List.mem_append_left _)⟩
  · exact fun s' hp => List.mem_cons_of_mem _ (H.parameters s' hp)
  · intro before n after e
    rcases append_singleton_eq_append_cons e with ⟨after', e⟩ | ⟨-, e⟩
    · exact H.ordered before n after' e
    · exact absurd e (by simp)

/-- A slot is stored into again. -/
theorem old (H : History h ts t assigned) (hs : s ∈ assigned) (hn : t.get? s = some name) :
    History h (ts ++ [.old name]) t assigned := by
  have hd : declaredNames (ts ++ [.old name]) = declaredNames ts := by
    rw [declaredNames_append]
    exact List.append_nil _
  have htemp : temporaryNames (ts ++ [.old name]) = temporaryNames ts := by
    rw [temporaryNames_append]
    exact List.append_nil _
  refine ⟨hd ▸ H.nodup, hd ▸ H.used, htemp ▸ H.unbound, hd ▸ H.stored, hd ▸ H.named,
    H.parameters, ?_⟩
  intro before n after e
  rcases append_singleton_eq_append_cons e with ⟨after', e⟩ | ⟨rfl, e'⟩
  · exact H.ordered before n after' e
  · obtain rfl := Target.old.inj e'
    obtain ⟨n', hn', hor⟩ := H.named s hs
    obtain rfl := Option.some.inj (hn'.symm.trans hn)
    exact hor.imp_left fun hp => ⟨s, hp, hn⟩

/-- The results of a call are named. -/
theorem results (H : History h ts t assigned) (ht : t.WellFormed) (base : String) (n : Nat) :
    History h (ts ++ [.results (t.temporaries base n).1]) (t.temporaries base n).2 assigned := by
  have hd : declaredNames (ts ++ [.results (t.temporaries base n).1]) =
      declaredNames ts ++ (t.temporaries base n).1 := by
    rw [declaredNames_append]
    exact congrArg _ (List.append_nil _)
  have htemp : temporaryNames (ts ++ [.results (t.temporaries base n).1]) =
      temporaryNames ts ++ (t.temporaries base n).1 := by
    rw [temporaryNames_append]
    exact congrArg _ (List.append_nil _)
  obtain ⟨hfree, hnodup⟩ := t.nodup_temporaries base n
  -- the names are those of no slot, as they were not in use
  have hnoslot : ∀ name ∈ (t.temporaries base n).1, ∀ s,
      (t.temporaries base n).2.get? s ≠ some name := by
    intro name hmem s hs
    rw [LocalNames.get?_temporaries] at hs
    exact hfree name hmem (ht.mem_used s name hs)
  have hnew : ∀ name ∈ declaredNames ts, name ∉ (t.temporaries base n).1 :=
    fun name hmem hnew => hfree name hnew (H.used name hmem)
  have H := H.grow (t.grows_temporaries base n)
  refine ⟨?_, ?_, ?_, ?_, ?_, H.parameters, ?_⟩
  · rw [hd]
    refine List.nodup_append.2 ⟨H.nodup, hnodup, ?_⟩
    rintro a ha b hb rfl
    exact hnew a ha hb
  · intro name hmem
    rw [hd, List.mem_append] at hmem
    rcases hmem with hmem | hmem
    · exact H.used name hmem
    · exact LocalNames.mem_used_temporaries (Or.inr hmem)
  · intro name hmem
    rw [htemp, List.mem_append] at hmem
    rcases hmem with hmem | hmem
    · exact H.unbound name hmem
    · exact hnoslot name hmem
  · intro s name hs hmem
    rw [hd, List.mem_append] at hmem
    rcases hmem with hmem | hmem
    · exact H.stored s name hs hmem
    · exact absurd hs (hnoslot name hmem s)
  · intro s hs
    obtain ⟨name, hn, hor⟩ := H.named s hs
    exact ⟨name, hn, hor.imp_right fun hmem => by rw [hd]; exact List.mem_append_left _ hmem⟩
  · intro before name after e
    rcases append_singleton_eq_append_cons e with ⟨after', e⟩ | ⟨-, e⟩
    · exact H.ordered before name after' e
    · exact absurd e (by simp)

theorem step (H : History h ts m.locals m.assigned) (hm : Machine.Reachable h options m)
    (r : Instruction) :
    History h (ts ++ (m.target? r).toList) (m.step r).locals (m.step r).assigned := by
  have hgrow := H.grow (m.grows_act (.step r))
  have hwf := (hm.step r).wellFormed
  have hcases := Machine.names_step hm.wellFormed r
  generalize m.target? r = target at hcases
  cases hcases with
  | none ha =>
    rw [ha, Option.toList_none, List.append_nil]
    exact hgrow
  | new hs hn ha =>
    rw [ha]
    exact hgrow.new hwf hs hn
  | old hs hn ha =>
    rw [ha]
    exact hgrow.old hs hn
  | results n ht ha =>
    rw [ha, ht]
    exact H.results hm.wellFormed "result" n

theorem act (H : History h ts m.locals m.assigned) (hm : Machine.Reachable h options m)
    (o : Operation) :
    History h (ts ++ (m.targetOf? o).toList) (m.act o).locals (m.act o).assigned := by
  cases o with
  | declare d =>
    show History h (ts ++ []) _ _
    rw [List.append_nil]
    exact H.grow (m.grows_act (.declare d))
  | step r => exact H.step hm r

theorem actAll (H : History h ts m.locals m.assigned) (hm : Machine.Reachable h options m)
    (os : List Operation) :
    History h (ts ++ m.targets os) (m.actAll os).locals (m.actAll os).assigned := by
  induction os generalizing m ts with
  | nil =>
    rw [Machine.targets, List.append_nil]
    exact H
  | cons o os ih =>
    rw [Machine.targets, ← List.append_assoc]
    exact ih (H.act hm o) (hm.act o)

/-- **The invariant of a run.** -/
theorem run (h : FunctionHeader) (options : MachineOptions) (os : List Operation) :
    let m := (Machine.start h options).actAll os
    History h ((Machine.start h options).targets os) m.locals m.assigned :=
  (History.start h options).actAll .start os

end History

/-! ## Names over a whole run -/

namespace Machine

/-- What stands before the name in the fragment that a read of a local pushes. -/
def readMark? : Opcode → Option String
  | .copyLoc | .moveLoc => some ""
  | .immBorrowLoc => some "&"
  | .mutBorrowLoc => some "&mut "
  | _ => none

/-- A read of a slot that has a name pushes this name. -/
theorem stack_step_of_read {m : Machine} {r : Instruction} {s : Slot} {ty : Option (List Char)}
    {name mark : String} (hs : m.slotOf? r = some (s, ty)) (hn : m.locals.get? s = some name)
    (hmark : readMark? r.opcode = some mark) : (m.step r).stack = (mark ++ name) :: m.stack := by
  have heffect : m.effect r = m.readEffect r mark := by
    unfold readMark? at hmark
    split at hmark
    case h_5 => exact absurd hmark (by simp)
    all_goals
      next hop =>
        obtain rfl := Option.some.inj hmark
        rw [effect, hop]
  have huse : (m.localUse r).name = name := by
    rw [localUse, hs]
    exact congrArg Prod.fst (LocalNames.bind_of_get? hn)
  show (m.effect r).pushes.reverse ++ m.stack.drop (m.effect r).pops = _
  rw [heffect, ← huse]
  rfl

/-- The header of the result shows the parameters under the names they have from the start. -/
theorem parameter_result {h : FunctionHeader} {options : MachineOptions} {m : Machine}
    (hm : Reachable h options m) {i : Nat} {p : Parameter} {name : String}
    (hp : h.parameters[i]? = some p) (hn : m.locals.get? (.arg i) = some name) :
    m.result.function.parameters[i]? = some { p with name } := by
  show m.namedParameters[i]? = _
  rw [namedParameters, hm.header_eq, List.getElem?_mapIdx, hp, Option.map_some, hn,
    Option.getD_some]

/-- **No name is given twice, and none changes.** At any point of any run, two slots have different
names, and what is in the table stays in it, at its place. The names of results are distinct, and
none is ever the name of a slot. Every parameter has a name from the start: the header of the result
shows it under this name, and every read of it pushes this name. -/
theorem names_distinct_and_stable (h : FunctionHeader) (options : MachineOptions)
    (os later : List Operation) :
    let m := (start h options).actAll os
    let m' := (start h options).actAll (os ++ later)
    let temporaries := temporaryNames ((start h options).targets (os ++ later))
    (∀ s s' name, m.locals.get? s = some name → m.locals.get? s' = some name → s = s') ∧
    (∀ s name, m.locals.get? s = some name → m'.locals.get? s = some name) ∧
    m.locals.names <+: m'.locals.names ∧
    temporaries.Nodup ∧
    (∀ s name, m.locals.get? s = some name → name ∉ temporaries) ∧
    ∀ i p, h.parameters[i]? = some p → ∃ name,
      m.locals.get? (.arg i) = some name ∧
      m'.result.function.parameters[i]? = some { p with name } ∧
      ∀ r ty mark, m.slotOf? r = some (.arg i, ty) → readMark? r.opcode = some mark →
        (m.step r).stack = (mark ++ name) :: m.stack := by
  intro m m' temporaries
  have hm : Reachable h options m := Reachable.start.actAll os
  have hm' : Reachable h options m' := Reachable.start.actAll (os ++ later)
  have hgrows : m.locals.Grows m'.locals := by
    have hm' : m' = m.actAll later := actAll_append _ os later
    rw [hm']
    exact m.grows_actAll later
  have H : History h ((start h options).targets (os ++ later)) m'.locals m'.assigned :=
    History.run h options (os ++ later)
  refine ⟨hm.wellFormed.injective, hgrows.extends, hgrows.names,
    H.nodup.sublist (temporaryNames_sublist _), ?_, ?_⟩
  · exact fun s name hn hmem => H.unbound name hmem s (hgrows.extends s name hn)
  · intro i p hp
    have hi : i < h.parameters.length := (List.getElem?_eq_some_iff.1 hp).1
    obtain ⟨name, hname⟩ := get?_parameterTable h hi
    have hn : m.locals.get? (.arg i) = some name :=
      ((start h options).grows_actAll os).extends _ _ hname
    exact ⟨name, hn, parameter_result hm' hp (hgrows.extends _ _ hn),
      fun r ty mark hs hmark => stack_step_of_read hs hn hmark⟩

/-- A function with a parameter that has the name which results are given. -/
def halveHeader : FunctionHeader where
  name := "halve"
  parameters := [⟨"result", "u64"⟩]
  returnType := "u64"

/-- Reads the parameter and calls a function with two results. -/
def halveCall : List Operation :=
  [.step ⟨0, .copyLoc, none, some "Arg0: u64"⟩,
    .step ⟨1, .call, none, some "pool::halve(u64):(u64,u64)"⟩]

/-- Stores the results into a declared local and into the parameter. -/
def halveStores : List Operation :=
  [.declare ⟨1, "loc0", "u64"⟩, .step ⟨2, .stLoc, none, some "loc0: u64"⟩,
    .step ⟨3, .stLoc, none, some "Arg0: u64"⟩]

/-- The names of the run are those of the parameter, the local and the two results. -/
theorem names_halve :
    let m := (start halveHeader {}).actAll halveCall
    let m' := (start halveHeader {}).actAll (halveCall ++ halveStores)
    m.locals.names = [(.arg 0, "result")] ∧
    m'.locals.names = [(.arg 0, "result"), (.loc 0, "amount")] ∧
    temporaryNames ((start halveHeader {}).targets (halveCall ++ halveStores)) =
      ["result_1", "result_2"] ∧
    m'.locals.get? (.arg 0) = some "result" ∧
    m'.result.function.parameters = [⟨"result", "u64"⟩] ∧
    (m.step ⟨4, .mutBorrowLoc, none, some "Arg0: u64"⟩).stack =
      ["&mut result", "result_2", "result_1"] := by
  intro m m'
  have hbound : m.locals.get? (.arg 0) = some "result" := by decide +kernel
  obtain ⟨-, hstable, -, -, -, hparameter⟩ :=
    names_distinct_and_stable halveHeader {} halveCall halveStores
  obtain ⟨name, hname, hheader, hread⟩ := hparameter 0 ⟨"result", "u64"⟩ rfl
  obtain rfl : "result" = name := Option.some.inj (hbound.symm.trans hname)
  refine ⟨by decide +kernel, by decide +kernel, by decide +kernel, hstable _ _ hbound, ?_, ?_⟩
  · exact List.ext_getElem? fun i => by
      cases i with
      | zero => exact hheader
      | succ i => rfl
  · have hslot : m.slotOf? ⟨4, .mutBorrowLoc, none, some "Arg0: u64"⟩ =
        some (.arg 0, some "u64".toList) := by decide +kernel
    have hstack : m.stack = ["result_2", "result_1"] := by decide +kernel
    rw [hread _ _ _ hslot rfl]
    show ("&mut " ++ "result") :: m.stack = _
    rw [hstack]
    rfl

/-- **A name is declared at most once.** The left sides of stores and of calls with several
results are those of statements written, in their order. No name among them is declared
twice, or is the name of a parameter; and a name that is assigned without `let` is a
parameter's, or was declared before. -/
theorem declared_once (h : FunctionHeader) (options : MachineOptions) (os : List Operation) :
    let m := (start h options).actAll os
    let ts := (start h options).targets os
    let parameters := m.result.function.parameters.map (·.name)
    (∃ lines, List.Forall₂ (fun t line => ∃ value, line = t.store value) ts lines ∧
      lines.Sublist m.statements) ∧
    (declaredNames ts).Nodup ∧
    (∀ name ∈ parameters, name ∉ declaredNames ts) ∧
    ∀ before name after, ts = before ++ .old name :: after →
      name ∈ parameters ∨ name ∈ declaredNames before := by
  intro m ts parameters
  have hm : Reachable h options m := Reachable.start.actAll os
  have H : History h ts m.locals m.assigned := History.run h options os
  -- the names in the header are those of the parameter slots
  have hparameters : ∀ name, name ∈ parameters ↔ ∃ s, IsParameter h s ∧
      m.locals.get? s = some name := by
    intro name
    have hnames : ∀ i (hi : i < h.parameters.length), ∃ n, m.locals.get? (.arg i) = some n ∧
        m.result.function.parameters[i]? = some { h.parameters[i] with name := n } := by
      intro i hi
      obtain ⟨n, hn⟩ := get?_parameterTable h hi
      have hn : m.locals.get? (.arg i) = some n :=
        ((start h options).grows_actAll os).extends _ _ hn
      exact ⟨n, hn, parameter_result hm (List.getElem?_eq_getElem hi) hn⟩
    have hlength : m.result.function.parameters.length = h.parameters.length := by
      show m.namedParameters.length = _
      rw [namedParameters, hm.header_eq, List.length_mapIdx]
    constructor
    · intro hmem
      obtain ⟨p, hp, rfl⟩ := List.mem_map.1 hmem
      obtain ⟨i, hp⟩ := List.mem_iff_getElem?.1 hp
      have hi : i < h.parameters.length := hlength ▸ (List.getElem?_eq_some_iff.1 hp).1
      obtain ⟨n, hn, hp'⟩ := hnames i hi
      obtain rfl := Option.some.inj (hp.symm.trans hp')
      exact ⟨.arg i, ⟨i, hi, rfl⟩, hn⟩
    · rintro ⟨s, ⟨i, hi, rfl⟩, hn⟩
      obtain ⟨n, hn', hp⟩ := hnames i hi
      obtain rfl := Option.some.inj (hn.symm.trans hn')
      exact List.mem_map.2 ⟨_, List.mem_of_getElem? hp, rfl⟩
  refine ⟨?_, H.nodup, ?_, ?_⟩
  · obtain ⟨lines, hlines, hsub⟩ := (start h options).sublist_statements os
    exact ⟨lines, hlines, hsub⟩
  · intro name hmem hd
    obtain ⟨s, hs, hn⟩ := (hparameters name).1 hmem
    exact (H.stored s name hn hd).2 hs
  · intro before name after e
    exact (H.ordered before name after e).imp_left (hparameters name).2

/-- The run declares the two results and the local, and assigns to the parameter. -/
theorem declared_halve :
    let m := (start halveHeader {}).actAll (halveCall ++ halveStores)
    let ts := (start halveHeader {}).targets (halveCall ++ halveStores)
    m.statements =
      ["let (result_1, result_2) = pool::halve(result);", "let amount = result_2;",
        "result = result_1;"] ∧
    ts = [.results ["result_1", "result_2"], .new "amount"] ++ .old "result" :: [] ∧
    ("result" ∈ m.result.function.parameters.map (·.name) ∨
      "result" ∈ declaredNames [.results ["result_1", "result_2"], .new "amount"]) := by
  intro m ts
  have hts : ts = [.results ["result_1", "result_2"], .new "amount"] ++ .old "result" :: [] := by
    decide +kernel
  obtain ⟨-, -, -, hordered⟩ := declared_once halveHeader {} (halveCall ++ halveStores)
  exact ⟨by decide +kernel, hts, hordered _ _ _ hts⟩

end Machine

end PseudoMove
