import PseudoMove.Proofs.NameShape
import PseudoMove.Proofs.FreshNames

/-!
# The table of names along a run

* `isName_fresh` — a fresh name has the shape of a name if its base has it;
* `LocalNames.WellFormed` — the invariant of the table: bound names are in use, no name is bound to
  two slots, and every name in use has the shape of a name (`IsName`);
* `LocalNames.Extends` — a later table has every entry of an earlier one;
* `Machine.Reachable` — the machines that declarations and instructions, in any order,
  lead to.  Their tables are well-formed (`Reachable.wellFormed`), and a step only
  extends them (`extends_step`).
-/

namespace PseudoMove

/-! ## Fresh names -/

namespace NameSupply

theorem isName_candidate {base : String} (hb : IsName base) (k : Nat) :
    IsName (candidate base k) := by
  cases k with
  | zero => exact hb
  | succ k => exact hb.append_number (k + 1)

theorem isName_fresh (a : NameSupply) {base : String} (hb : IsName base) :
    IsName (a.fresh base).1 := by
  have : baseOf base = base := if_neg (hb.ne_of_not (by decide))
  unfold fresh
  dsimp only
  rw [this]
  exact isName_candidate hb _

end NameSupply

/-! ## Tables -/

namespace LocalNames

variable {t t' : LocalNames} {slot : Slot} {base : String}

/-- The table `t'` has every entry of `t`. -/
def Extends (t t' : LocalNames) : Prop :=
  ∀ slot name, t.get? slot = some name → t'.get? slot = some name

theorem Extends.refl (t : LocalNames) : t.Extends t := fun _ _ h => h

theorem Extends.trans {t'' : LocalNames} (h : t.Extends t') (h' : t'.Extends t'') :
    t.Extends t'' := fun slot name hn => h' slot name (h slot name hn)

/-- What holds of the table throughout a run. -/
structure WellFormed (t : LocalNames) : Prop where
  /-- A bound name is in use. -/
  mem_used : ∀ slot name, t.get? slot = some name → name ∈ t.supply.used
  /-- No name is bound to two slots. -/
  injective : ∀ s s' name, t.get? s = some name → t.get? s' = some name → s = s'
  /-- What is in use has the shape of a name. -/
  isName : ∀ name ∈ t.supply.used, IsName name

theorem WellFormed.isName_of_get? (ht : t.WellFormed) {name : String}
    (h : t.get? slot = some name) : IsName name := ht.isName name (ht.mem_used slot name h)

theorem wellFormed_empty : ({} : LocalNames).WellFormed := by
  refine ⟨?_, ?_, ?_⟩
  · intro slot name h
    exact absurd h (by simp [get?])
  · intro s s' name h
    exact absurd h (by simp [get?])
  · intro name h
    exact absurd h (by simp)

/-! ### Binding a slot -/

theorem bind_of_get? {name : String} (h : t.get? slot = some name) :
    t.bind slot base = (name, t) := by
  unfold bind
  rw [h]

theorem bind_of_get?_none (h : t.get? slot = none) :
    t.bind slot base = ((t.supply.fresh base).1,
      { names := t.names ++ [(slot, (t.supply.fresh base).1)],
        supply := (t.supply.fresh base).2 }) := by
  unfold bind
  rw [h]

/-- After binding, the slot has the name and every other slot has what it had. -/
theorem get?_bind (t : LocalNames) (slot : Slot) (base : String) (s : Slot) :
    (t.bind slot base).2.get? s = if s = slot then some (t.bind slot base).1 else t.get? s := by
  cases h : t.get? slot with
  | some name =>
    rw [bind_of_get? h]
    split
    · next e => rw [e, h]
    · rfl
  | none =>
    rw [bind_of_get?_none h]
    show (t.names ++ [(slot, (t.supply.fresh base).1)]).lookup s = _
    rw [List.lookup_append]
    by_cases e : s = slot
    · have hs : t.names.lookup s = none := by rw [e]; exact h
      rw [if_pos e, hs, Option.none_or, e]
      simp
    · rw [if_neg e]
      have : List.lookup s [(slot, (t.supply.fresh base).1)] = none := by
        simp [List.lookup, beq_eq_false_iff_ne.2 e]
      rw [this, Option.or_none]
      rfl

theorem get?_bind_self (t : LocalNames) (slot : Slot) (base : String) :
    (t.bind slot base).2.get? slot = some (t.bind slot base).1 := by
  rw [get?_bind, if_pos rfl]

theorem extends_bind (t : LocalNames) (slot : Slot) (base : String) :
    t.Extends (t.bind slot base).2 := by
  intro s name h
  rw [get?_bind]
  split
  · next e =>
    subst e
    rw [bind_of_get? h]
  · exact h

theorem WellFormed.bind (ht : t.WellFormed) (hb : IsName base) (slot : Slot) :
    (t.bind slot base).2.WellFormed := by
  cases h : t.get? slot with
  | some name =>
    rw [bind_of_get? h]
    exact ht
  | none =>
    have hnew : ∀ s name, (t.bind slot base).2.get? s = some name →
        (s = slot ∧ name = (t.supply.fresh base).1) ∨ (s ≠ slot ∧ t.get? s = some name) := by
      intro s name hs
      rw [get?_bind, bind_of_get?_none h] at hs
      split at hs
      · next e => exact Or.inl ⟨e, (Option.some.inj hs).symm⟩
      · next e => exact Or.inr ⟨e, hs⟩
    have hused : (t.bind slot base).2.supply.used = (t.supply.fresh base).1 :: t.supply.used := by
      rw [bind_of_get?_none h]
      rfl
    -- the new name is not in use, hence not bound
    have hfree : ∀ s, t.get? s ≠ some (t.supply.fresh base).1 := by
      intro s hs
      exact t.supply.fresh_notMem base (ht.mem_used s _ hs)
    refine ⟨?_, ?_, ?_⟩
    · intro s name hs
      rw [hused, List.mem_cons]
      rcases hnew s name hs with ⟨-, rfl⟩ | ⟨-, hs⟩
      · exact Or.inl rfl
      · exact Or.inr (ht.mem_used s name hs)
    · intro s s' name hs hs'
      rcases hnew s name hs with ⟨e₁, n₁⟩ | ⟨-, h₁⟩ <;>
        rcases hnew s' name hs' with ⟨e₂, n₂⟩ | ⟨-, h₂⟩
      · rw [e₁, e₂]
      · exact absurd (n₁ ▸ h₂) (hfree s')
      · exact absurd (n₂ ▸ h₁) (hfree s)
      · exact ht.injective s s' name h₁ h₂
    · intro name hname
      rw [hused, List.mem_cons] at hname
      rcases hname with rfl | hname
      · exact t.supply.isName_fresh hb
      · exact ht.isName name hname

/-! ### Names that belong to no slot -/

theorem get?_temporary (t : LocalNames) (base : String) (s : Slot) :
    (t.temporary base).2.get? s = t.get? s := rfl

theorem WellFormed.temporary (ht : t.WellFormed) (hb : IsName base) :
    (t.temporary base).2.WellFormed := by
  refine ⟨?_, ht.injective, ?_⟩
  · intro slot name h
    exact List.mem_cons_of_mem _ (ht.mem_used slot name h)
  · intro name hname
    rcases List.mem_cons.1 hname with rfl | hname
    · exact t.supply.isName_fresh hb
    · exact ht.isName name hname

theorem get?_temporaries (t : LocalNames) (base : String) (n : Nat) (s : Slot) :
    (t.temporaries base n).2.get? s = t.get? s := by
  induction n generalizing t with
  | zero => rfl
  | succ n ih =>
    show ((t.temporary base).2.temporaries base n).2.get? s = _
    rw [ih, get?_temporary]

theorem extends_temporaries (t : LocalNames) (base : String) (n : Nat) :
    t.Extends (t.temporaries base n).2 := by
  intro s name h
  rw [get?_temporaries, h]

theorem WellFormed.temporaries (ht : t.WellFormed) (hb : IsName base) (n : Nat) :
    (t.temporaries base n).2.WellFormed := by
  induction n generalizing t with
  | zero => exact ht
  | succ n ih => exact ih (ht.temporary hb)

/-- Names handed out are in use afterwards, as those are that were before. -/
theorem mem_used_temporaries {base name : String} {n : Nat}
    (h : name ∈ t.supply.used ∨ name ∈ (t.temporaries base n).1) :
    name ∈ (t.temporaries base n).2.supply.used := by
  induction n generalizing t with
  | zero => exact h.resolve_right List.not_mem_nil
  | succ n ih =>
    refine ih (t := (t.temporary base).2) ?_
    rcases h with h | h
    · exact Or.inl (List.mem_cons_of_mem _ h)
    · rcases List.mem_cons.1 h with rfl | h
      · exact Or.inl List.mem_cons_self
      · exact Or.inr h

end LocalNames

/-! ## The machine -/

namespace Machine

/-- The machines that declarations and instructions, in any order, lead to. -/
inductive Reachable (h : FunctionHeader) (options : MachineOptions) : Machine → Prop
  | start : Reachable h options (start h options)
  | declare {m : Machine} (d : SlotDecl) : Reachable h options m → Reachable h options (m.declare d)
  | step {m : Machine} (r : Instruction) : Reachable h options m → Reachable h options (m.step r)

variable {h : FunctionHeader} {options : MachineOptions} {m : Machine}

theorem step_options (m : Machine) (r : Instruction) : (m.step r).options = m.options := rfl

theorem localUse_wellFormed (hm : m.locals.WellFormed) (r : Instruction) :
    (m.localUse r).locals.WellFormed := by
  unfold localUse
  split
  · exact hm
  · exact hm.bind (isName_localBase _ _) _

theorem extends_localUse (m : Machine) (r : Instruction) :
    m.locals.Extends (m.localUse r).locals := by
  unfold localUse
  split
  · exact LocalNames.Extends.refl _
  · exact LocalNames.extends_bind _ _ _

/-- The local of an instruction that means the slot `s`: afterwards `s` has the name given, and the
other slots have what they had. -/
theorem localUse_of_slotOf? (hm : m.locals.WellFormed) {r : Instruction} {s : Slot}
    {ty : Option (List Char)} (hs : m.slotOf? r = some (s, ty)) :
    ∃ name t, m.localUse r = { slot := some s, name, locals := t } ∧ t.get? s = some name ∧
      t.WellFormed ∧ m.locals.Extends t := by
  refine ⟨_, _, ?_, m.locals.get?_bind_self s (localBase s ty), hm.bind (isName_localBase s ty) s,
    m.locals.extends_bind s (localBase s ty)⟩
  rw [localUse, hs]

/-- The effect of a read of the slot `s`: its name is pushed. -/
theorem effect_of_read (hm : m.locals.WellFormed) {r : Instruction} {s : Slot}
    {ty : Option (List Char)} (hop : r.opcode = .copyLoc ∨ r.opcode = .moveLoc)
    (hs : m.slotOf? r = some (s, ty)) :
    ∃ name t, m.effect r = { pushes := [name], locals := t } ∧ t.get? s = some name ∧
      t.WellFormed ∧ m.locals.Extends t := by
  obtain ⟨name, t, huse, hspec⟩ := localUse_of_slotOf? hm hs
  refine ⟨name, t, ?_, hspec⟩
  have : m.effect r = m.readEffect r "" := by
    rcases hop with h | h <;> rw [effect, h]
  rw [this, readEffect, huse]
  dsimp only
  rw [String.empty_append]
  rfl

/-- The effect of a store into the slot `s`: what lies on top is assigned to its name. -/
theorem effect_of_store (hm : m.locals.WellFormed) {r : Instruction} {s : Slot}
    {ty : Option (List Char)} (hop : r.opcode = .stLoc) (hs : m.slotOf? r = some (s, ty)) :
    ∃ name t, m.effect r =
        { pops := 1
          statement := some ((if s ∉ m.assigned then "let " else "") ++ name ++ " = " ++
            m.operand 0 ++ ";")
          locals := t
          assigned := if s ∉ m.assigned then some s else none } ∧
      t.get? s = some name ∧ t.WellFormed ∧ m.locals.Extends t := by
  obtain ⟨name, t, huse, hspec⟩ := localUse_of_slotOf? hm hs
  refine ⟨name, t, ?_, hspec⟩
  have : m.effect r = m.storeEffect r := by rw [effect, hop]
  rw [this, storeEffect, huse]
  simp only [Option.any_some, decide_eq_true_eq]
  rfl

/-- The table after an instruction: as it was, or with the local that the instruction means bound,
or with the names of several results handed out. -/
theorem locals_effect (m : Machine) (r : Instruction) :
    (m.effect r).locals = m.locals ∨ (m.effect r).locals = (m.localUse r).locals ∨
      ∃ n, (m.effect r).locals = (m.locals.temporaries "result" n).2 := by
  unfold effect
  dsimp only
  split
  all_goals first
    | exact Or.inl rfl
    | exact Or.inr (Or.inl rfl)
    | skip
  · -- a call
    split
    · next f _ =>
      unfold callEffect
      dsimp only
      split
      · exact Or.inl rfl
      · exact Or.inl rfl
      · exact Or.inr (Or.inr ⟨_, rfl⟩)
    · exact Or.inl rfl
  · -- the return
    unfold returnEffect
    split <;> exact Or.inl rfl

theorem extends_step (m : Machine) (r : Instruction) : m.locals.Extends (m.step r).locals := by
  show m.locals.Extends (m.effect r).locals
  rcases m.locals_effect r with e | e | ⟨n, e⟩ <;> rw [e]
  · exact LocalNames.Extends.refl _
  · exact m.extends_localUse r
  · exact LocalNames.extends_temporaries _ _ _

theorem extends_foldl_step (m : Machine) (rs : List Instruction) :
    m.locals.Extends (rs.foldl step m).locals := by
  induction rs generalizing m with
  | nil => exact LocalNames.Extends.refl _
  | cons r rs ih => exact (m.extends_step r).trans (ih _)

/-- Declarations change the table and the numbers of slots. -/
theorem foldl_declare_eq (ds : List SlotDecl) (m : Machine) :
    ∃ t declared, ds.foldl declare m = { m with locals := t, declared } := by
  induction ds generalizing m with
  | nil => exact ⟨m.locals, m.declared, rfl⟩
  | cons d ds ih =>
    obtain ⟨t, declared, h⟩ := ih (m.declare d)
    exact ⟨t, declared, h⟩

theorem extends_foldl_declare (m : Machine) (ds : List SlotDecl) :
    m.locals.Extends (ds.foldl declare m).locals := by
  induction ds generalizing m with
  | nil => exact LocalNames.Extends.refl _
  | cons d ds ih => exact (LocalNames.extends_bind _ _ _).trans (ih (m.declare d))

theorem wellFormed_step (hm : m.locals.WellFormed) (r : Instruction) :
    (m.step r).locals.WellFormed := by
  show (m.effect r).locals.WellFormed
  rcases m.locals_effect r with e | e | ⟨n, e⟩ <;> rw [e]
  · exact hm
  · exact localUse_wellFormed hm r
  · exact hm.temporaries (by decide) n

theorem wellFormed_parameterTable (h : FunctionHeader) : (parameterTable h).WellFormed := by
  have key : ∀ (bs : List (Slot × String)) (t : LocalNames), t.WellFormed →
      (∀ b ∈ bs, IsName b.2) → (bs.foldl (fun t b => (t.bind b.1 b.2).2) t).WellFormed := by
    intro bs
    induction bs with
    | nil => exact fun t ht _ => ht
    | cons b bs ih =>
      intro t ht hbs
      exact ih _ (ht.bind (hbs b List.mem_cons_self) _)
        fun b' hb' => hbs b' (List.mem_cons_of_mem _ hb')
  refine key _ _ LocalNames.wellFormed_empty fun b hb => ?_
  obtain ⟨i, hi, rfl⟩ := List.mem_mapIdx.1 hb
  exact isName_parameterBase h i _

/-- Every parameter has a name from the start. -/
theorem get?_parameterTable (h : FunctionHeader) {i : Nat} (hi : i < h.parameters.length) :
    ∃ name, (parameterTable h).get? (.arg i) = some name := by
  have key : ∀ (bs : List (Slot × String)) (t : LocalNames) (s : Slot),
      (s ∈ bs.map (·.1) ∨ (t.get? s).isSome) →
      ((bs.foldl (fun t b => (t.bind b.1 b.2).2) t).get? s).isSome := by
    intro bs
    induction bs with
    | nil =>
      intro t s hs
      simpa using hs
    | cons b bs ih =>
      intro t s hs
      refine ih _ s ?_
      rw [LocalNames.get?_bind]
      by_cases e : s = b.1
      · exact Or.inr (by rw [if_pos e]; rfl)
      · rw [if_neg e]
        simpa [e] using hs
  refine Option.isSome_iff_exists.1 (key _ _ _ (Or.inl ?_))
  rw [List.mem_map]
  exact ⟨_, List.mem_mapIdx.2 ⟨i, hi, rfl⟩, rfl⟩

/-- **The tables of a run are well-formed.** -/
theorem Reachable.wellFormed (hm : Reachable h options m) : m.locals.WellFormed := by
  induction hm with
  | start => exact wellFormed_parameterTable h
  | declare d _ ih => exact ih.bind (isName_nameFor _ _) _
  | step r _ ih => exact wellFormed_step ih r

theorem Reachable.header_eq (hm : Reachable h options m) : m.header = h := by
  induction hm with
  | start => rfl
  | declare d _ ih => exact ih
  | step r _ ih => exact ih

theorem Reachable.options_eq (hm : Reachable h options m) : m.options = options := by
  induction hm with
  | start => rfl
  | declare d _ ih => exact ih
  | step r _ ih => exact ih

theorem Reachable.foldl_declare (hm : Reachable h options m) (ds : List SlotDecl) :
    Reachable h options (ds.foldl Machine.declare m) := by
  induction ds generalizing m with
  | nil => exact hm
  | cons d ds ih => exact ih (hm.declare d)

theorem Reachable.foldl_step (hm : Reachable h options m) (rs : List Instruction) :
    Reachable h options (rs.foldl Machine.step m) := by
  induction rs generalizing m with
  | nil => exact hm
  | cons r rs ih => exact ih (hm.step r)

end Machine

end PseudoMove
