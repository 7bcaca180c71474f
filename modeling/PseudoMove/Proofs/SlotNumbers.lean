import PseudoMove.Proofs.NameTable
import PseudoMove.Proofs.SlotLabel

/-!
# The slots of operands

An instruction names its slot by a label in its remark, or else by its operand, which counts the
parameters and then the locals of the bytecode.  A listing may declare these locals under names of
their own, and then the number of a local is the one in its name (`loc2`) or, without one, the
number of slots that are declared before.

* `lookup_foldl_declare` — which number a declared slot gets;
* `exists_slotOf?_of_unlabelled` — what an operand means then;
* `keepsApart_iff` — different slots stay different, and have different names, just if no number is
  given twice.  The two ways of numbering can meet: behind `x`, which gets the number 0, comes
  `loc0` (`slots_merged`);
* `operand_agrees_label` — if names and order of the declarations agree, operands and labels do.
-/

namespace PseudoMove

open Text Remark

/-! ## Numbers of declared slots -/

namespace SlotDecl

/-- The number in the name of the slot. -/
def ownNumber? (d : SlotDecl) : Option Nat := localNumber? d.name.toList

/-- The local number of a slot that `i` others are declared before. -/
def number (d : SlotDecl) (i : Nat) : Nat := d.ownNumber?.getD i

end SlotDecl

namespace Machine

theorem lookup_declare (m : Machine) (d : SlotDecl) (s : Nat) :
    (m.declare d).declared.lookup s =
      if s = d.slot then some (d.number m.declared.length) else m.declared.lookup s := by
  show List.lookup s ((d.slot, d.number m.declared.length) :: m.declared.filter (·.1 ≠ d.slot)) = _
  rw [List.lookup_cons]
  split_ifs with h
  · rw [h, beq_self_eq_true]
  · rw [beq_false_of_ne h, lookup_filter_ne h]

theorem length_declare {m : Machine} {d : SlotDecl} (h : m.declared.lookup d.slot = none) :
    (m.declare d).declared.length = m.declared.length + 1 := by
  have hall : ∀ p ∈ m.declared, decide (p.1 ≠ d.slot) = true := by
    intro p hp
    have hne := List.lookup_eq_none_iff.1 h p hp
    exact decide_eq_true fun e => by simp [e] at hne
  show ((d.slot, d.number m.declared.length) :: m.declared.filter (·.1 ≠ d.slot)).length = _
  rw [List.length_cons, List.filter_eq_self.2 hall]

theorem lookup_foldl_declare_of_notMem {ds : List SlotDecl} {s : Nat}
    (h : s ∉ ds.map (·.slot)) (m : Machine) :
    (ds.foldl declare m).declared.lookup s = m.declared.lookup s := by
  induction ds generalizing m with
  | nil => rfl
  | cons d ds ih =>
    obtain ⟨hd, hds⟩ := not_or.1 fun hs => h (List.mem_cons.2 hs)
    rw [List.foldl_cons, ih hds, lookup_declare, if_neg hd]

/-- **A declared slot gets the number in its name, or else the number of those declared before.** -/
theorem lookup_foldl_declare {ds : List SlotDecl} (hslots : (ds.map (·.slot)).Nodup) {m : Machine}
    (hm : ∀ d ∈ ds, m.declared.lookup d.slot = none) {i : Nat} {d : SlotDecl}
    (hd : ds[i]? = some d) :
    (ds.foldl declare m).declared.lookup d.slot = some (d.number (m.declared.length + i)) := by
  induction ds generalizing m i with
  | nil => exact absurd hd (by simp)
  | cons e ds ih =>
    obtain ⟨he, hds⟩ := List.nodup_cons.1 hslots
    rw [List.foldl_cons]
    cases i with
    | zero =>
      obtain rfl : e = d := Option.some.inj hd
      rw [lookup_foldl_declare_of_notMem he, lookup_declare, if_pos rfl]
      rfl
    | succ i =>
      have hnew : ∀ d ∈ ds, (m.declare e).declared.lookup d.slot = none := by
        intro d hd
        have hne : d.slot ≠ e.slot := fun h => he (List.mem_map.2 ⟨d, hd, h⟩)
        rw [lookup_declare, if_neg hne, hm d (List.mem_cons_of_mem e hd)]
      rw [ih hds hnew hd, length_declare (hm e List.mem_cons_self), Nat.add_assoc, Nat.add_comm 1 i]

theorem declared_foldl_step (m : Machine) (rs : List Instruction) :
    (rs.foldl step m).declared = m.declared := by
  induction rs generalizing m with
  | nil => rfl
  | cons r rs ih => exact ih _

end Machine

/-! ## What an operand means -/

/-- The remark of the instruction, if it has one, names no slot. -/
def Unlabelled (r : Instruction) : Prop :=
  ∀ a, r.remark = some a → slot? (labelAndType a.toList).1 = none

namespace Machine

variable {m : Machine} {r : Instruction}

/-- The slot that an operand means: parameters come first. -/
def slotAt (m : Machine) (i : Nat) : Slot :=
  if i < m.header.parameters.length then .arg i
  else .loc ((m.declared.lookup i).getD (i - m.header.parameters.length))

theorem exists_slotOf?_of_unlabelled (hr : Unlabelled r) {i : Nat} (hi : r.operandIndex = some i) :
    ∃ ty, m.slotOf? r = some (m.slotAt i, ty) := by
  have hlabel : ((r.remark.map fun a => labelAndType a.toList).bind fun p => slot? p.1) = none := by
    cases hremark : r.remark with
    | none => rfl
    | some a => exact hr a hremark
  unfold slotOf?
  dsimp only
  rw [hlabel, hi]
  exact ⟨_, rfl⟩

/-- A slot that has a name is written under this name. -/
theorem name_localUse {s : Slot} {ty : Option (List Char)} (hs : m.slotOf? r = some (s, ty))
    {n : String} (hn : m.locals.get? s = some n) : (m.localUse r).name = n := by
  unfold localUse
  rw [hs]
  dsimp only
  rw [LocalNames.bind_of_get? hn]

section Run

variable {h : FunctionHeader} {options : MachineOptions} {ds : List SlotDecl}
  {rs : List Instruction}

theorem reachable_run : Reachable h options ((start h options).run ⟨ds, rs⟩) :=
  (Reachable.start.foldl_declare ds).foldl_step rs

theorem declared_run :
    ((start h options).run ⟨ds, rs⟩).declared = (ds.foldl declare (start h options)).declared :=
  declared_foldl_step _ rs

theorem lookup_run (hslots : (ds.map (·.slot)).Nodup) {j : Nat} {d : SlotDecl}
    (hd : ds[j]? = some d) :
    ((start h options).run ⟨ds, rs⟩).declared.lookup d.slot = some (d.number j) := by
  rw [declared_run, lookup_foldl_declare hslots (fun _ _ => rfl) hd]
  show some (d.number (0 + j)) = _
  rw [Nat.zero_add]

theorem slotAt_parameter {i : Nat} (hi : i < h.parameters.length) :
    ((start h options).run ⟨ds, rs⟩).slotAt i = .arg i := by
  rw [slotAt, reachable_run.header_eq, if_pos hi]

theorem slotAt_declared (hslots : (ds.map (·.slot)).Nodup) {j : Nat} {d : SlotDecl}
    (hd : ds[j]? = some d) (hparams : h.parameters.length ≤ d.slot) :
    ((start h options).run ⟨ds, rs⟩).slotAt d.slot = .loc (d.number j) := by
  rw [slotAt, reachable_run.header_eq, if_neg (not_lt.2 hparams), lookup_run hslots hd,
    Option.getD_some]

theorem slotAt_undeclared {i : Nat} (hi : i ∉ ds.map (·.slot)) (hparams : h.parameters.length ≤ i) :
    ((start h options).run ⟨ds, rs⟩).slotAt i = .loc (i - h.parameters.length) := by
  have hlookup : (ds.foldl declare (start h options)).declared.lookup i = none :=
    lookup_foldl_declare_of_notMem hi _
  rw [slotAt, reachable_run.header_eq, if_neg (not_lt.2 hparams), declared_run, hlookup,
    Option.getD_none]

/-! ### Names of listed slots -/

theorem exists_name_parameter {m : Machine} (hm : Reachable h options m) {i : Nat}
    (hi : i < h.parameters.length) :
    ∃ n, m.locals.get? (.arg i) = some n := by
  induction hm with
  | start => exact get?_parameterTable h hi
  | declare d _ ih =>
    obtain ⟨n, hn⟩ := ih
    exact ⟨n, LocalNames.extends_bind _ _ _ _ _ hn⟩
  | step r _ ih =>
    obtain ⟨n, hn⟩ := ih
    exact ⟨n, extends_step _ r _ _ hn⟩

theorem exists_name_declared {m : Machine} (hm : Reachable h options m) {e : Nat × Nat}
    (he : e ∈ m.declared) :
    ∃ n, m.locals.get? (.loc e.2) = some n := by
  induction hm with
  | start => exact absurd he List.not_mem_nil
  | @declare m d _ ih =>
    rcases List.mem_cons.1 he with rfl | he
    · exact ⟨_, m.locals.get?_bind_self _ _⟩
    · obtain ⟨n, hn⟩ := ih (List.mem_filter.1 he).1
      exact ⟨n, LocalNames.extends_bind _ _ _ _ _ hn⟩
  | step r _ ih =>
    obtain ⟨n, hn⟩ := ih he
    exact ⟨n, extends_step _ r _ _ hn⟩

end Run

end Machine

/-! ## Different slots -/

/-- The parameters and the declared slots, by their place in the bytecode. -/
def Listed (h : FunctionHeader) (ds : List SlotDecl) (i : Nat) : Prop :=
  i < h.parameters.length ∨ i ∈ ds.map (·.slot)

/-- Wherever in the body two instructions without labels stand, if their operands are different
slots of the listing, they mean different slots and write different names. -/
def KeepsApart (h : FunctionHeader) (options : MachineOptions) (ds : List SlotDecl) : Prop :=
  ∀ (rs rs' : List Instruction) {r r' : Instruction} {i i' : Nat}, Unlabelled r → Unlabelled r' →
    r.operandIndex = some i → r'.operandIndex = some i' → i ≠ i' → Listed h ds i → Listed h ds i' →
    let m := (Machine.start h options).run ⟨ds, rs⟩
    let m' := (Machine.start h options).run ⟨ds, rs'⟩
    ∃ s s' ty ty', m.slotOf? r = some (s, ty) ∧ m'.slotOf? r' = some (s', ty') ∧ s ≠ s' ∧
      (m.localUse r).name ≠ (m'.localUse r').name

/-- No number is given twice. -/
structure NumbersApart (ds : List SlotDecl) : Prop where
  /-- Two names have different numbers. -/
  named : ds.Pairwise fun d e => d.ownNumber?.isSome → d.ownNumber? ≠ e.ownNumber?
  /-- A slot without a number in its name is not counted up to the number in another name. -/
  counted : ∀ d ∈ ds.zipIdx, d.1.ownNumber? = none → ∀ e ∈ ds, e.ownNumber? ≠ some d.2

theorem SlotDecl.number_of_some {d : SlotDecl} {k : Nat} (h : d.ownNumber? = some k) (i : Nat) :
    d.number i = k := by
  rw [number, h, Option.getD_some]

theorem SlotDecl.number_of_none {d : SlotDecl} (h : d.ownNumber? = none) (i : Nat) :
    d.number i = i := by
  rw [number, h, Option.getD_none]

/-- A slot that is counted up to the number in a name has this name itself. -/
theorem NumbersApart.ne_number {ds : List SlotDecl} (h : NumbersApart ds)
    {i j : Nat} {d e : SlotDecl} (hd : ds[i]? = some d)
    (he : ds[j]? = some e) (hnone : d.ownNumber? = none) (hsome : e.ownNumber?.isSome) :
    d.number i ≠ e.number j := by
  obtain ⟨k, hk⟩ := Option.isSome_iff_exists.1 hsome
  rw [SlotDecl.number_of_none hnone, SlotDecl.number_of_some hk]
  rintro rfl
  exact h.counted (d, i) (List.mk_mem_zipIdx_iff_getElem?.2 hd) hnone e (List.mem_of_getElem? he) hk

theorem NumbersApart.injective {ds : List SlotDecl} (h : NumbersApart ds)
    {i j : Nat} {d e : SlotDecl} (hd : ds[i]? = some d)
    (he : ds[j]? = some e) (hnumber : d.number i = e.number j) : i = j := by
  -- of two names, the first in the list is the one that `named` is about
  have named {i j : Nat} {d e : SlotDecl} {k : Nat} (hd : ds[i]? = some d) (he : ds[j]? = some e)
      (hdk : d.ownNumber? = some k) (hek : e.ownNumber? = some k) : ¬ i < j := by
    intro hij
    obtain ⟨hi, rfl⟩ := List.getElem?_eq_some_iff.1 hd
    obtain ⟨hj, rfl⟩ := List.getElem?_eq_some_iff.1 he
    exact List.pairwise_iff_getElem.1 h.named i j hi hj hij (by rw [hdk]; rfl) (by rw [hdk, hek])
  cases hdk : d.ownNumber? with
  | none =>
    cases hek : e.ownNumber? with
    | none => rwa [SlotDecl.number_of_none hdk, SlotDecl.number_of_none hek] at hnumber
    | some l => exact absurd hnumber (h.ne_number hd he hdk (by rw [hek]; rfl))
  | some k =>
    cases hek : e.ownNumber? with
    | none => exact absurd hnumber.symm (h.ne_number he hd hek (by rw [hdk]; rfl))
    | some l =>
      rw [SlotDecl.number_of_some hdk, SlotDecl.number_of_some hek] at hnumber
      subst hnumber
      exact Nat.le_antisymm (not_lt.1 (named he hd hek hdk)) (not_lt.1 (named hd he hdk hek))

theorem numbersApart_of_injective {ds : List SlotDecl} (h : ∀ {i j : Nat} {d e : SlotDecl},
      ds[i]? = some d → ds[j]? = some e → d.number i = e.number j → i = j) :
    NumbersApart ds where
  named := by
    refine List.pairwise_iff_getElem.2 fun i j hi hj hij hsome heq => ?_
    obtain ⟨k, hk⟩ := Option.isSome_iff_exists.1 hsome
    have hnumber : ds[i].number i = ds[j].number j := by
      rw [SlotDecl.number_of_some hk, SlotDecl.number_of_some (heq ▸ hk)]
    exact hij.ne (h (List.getElem?_eq_getElem hi) (List.getElem?_eq_getElem hj) hnumber)
  counted := by
    rintro ⟨d, i⟩ hd hnone e he hk
    have hd := List.mk_mem_zipIdx_iff_getElem?.1 hd
    obtain ⟨j, he⟩ := List.mem_iff_getElem?.1 he
    obtain rfl : i = j :=
      h hd he (by rw [SlotDecl.number_of_none hnone, SlotDecl.number_of_some hk])
    rw [hd] at he
    obtain rfl := Option.some.inj he
    rw [hnone] at hk
    cases hk

namespace Machine

variable {h : FunctionHeader} {options : MachineOptions} {ds : List SlotDecl}

section

variable (options) (hslots : (ds.map (·.slot)).Nodup)
  (hparams : ∀ d ∈ ds, h.parameters.length ≤ d.slot)
include hslots hparams

theorem exists_slotAt_declared {i : Nat} (hi : i ∈ ds.map (·.slot)) :
    ∃ (j : Nat) (d : SlotDecl), ds[j]? = some d ∧ d.slot = i ∧
      ∀ rs, ((start h options).run ⟨ds, rs⟩).slotAt i = .loc (d.number j) := by
  obtain ⟨d, hd, rfl⟩ := List.mem_map.1 hi
  obtain ⟨j, hj⟩ := List.mem_iff_getElem?.1 hd
  exact ⟨j, d, hj, rfl, fun _ => slotAt_declared hslots hj (hparams d hd)⟩

/-- A listed slot has a name before the first instruction. -/
theorem exists_name_listed {i : Nat} (hi : Listed h ds i) :
    ∃ n, ((start h options).run ⟨ds, []⟩).locals.get? (((start h options).run ⟨ds, []⟩).slotAt i) =
      some n := by
  rcases hi with hi | hi
  · rw [slotAt_parameter hi]
    exact exists_name_parameter reachable_run hi
  · obtain ⟨j, d, hd, rfl, hslot⟩ := exists_slotAt_declared options hslots hparams hi
    have hlookup : ((start h options).run ⟨ds, []⟩).declared.lookup d.slot = some (d.number j) :=
      lookup_run hslots hd
    obtain ⟨l₁, l₂, hsplit, -⟩ := List.lookup_eq_some_iff.1 hlookup
    have hmem : (d.slot, d.number j) ∈ ((start h options).run ⟨ds, []⟩).declared := by
      rw [hsplit]
      exact List.mem_append_right _ List.mem_cons_self
    rw [hslot]
    exact exists_name_declared reachable_run hmem

/-- Listed slots are different if no number is given twice. -/
theorem slotAt_injective (hapart : NumbersApart ds)
    {i i' : Nat} (hi : Listed h ds i) (hi' : Listed h ds i')
    (heq : ((start h options).run ⟨ds, []⟩).slotAt i = ((start h options).run ⟨ds, []⟩).slotAt i') :
    i = i' := by
  rcases hi with hi | hi <;> rcases hi' with hi' | hi'
  · rw [slotAt_parameter hi, slotAt_parameter hi'] at heq
    exact Slot.arg.inj heq
  · obtain ⟨j, d, -, -, hslot⟩ := exists_slotAt_declared options hslots hparams hi'
    rw [slotAt_parameter hi, hslot] at heq
    cases heq
  · obtain ⟨j, d, -, -, hslot⟩ := exists_slotAt_declared options hslots hparams hi
    rw [slotAt_parameter hi', hslot] at heq
    cases heq
  · obtain ⟨j, d, hd, rfl, hslot⟩ := exists_slotAt_declared options hslots hparams hi
    obtain ⟨j', d', hd', rfl, hslot'⟩ := exists_slotAt_declared options hslots hparams hi'
    rw [hslot, hslot'] at heq
    obtain rfl := hapart.injective hd hd' (Slot.loc.inj heq)
    rw [hd] at hd'
    rw [Option.some.inj hd']

end

/-- Instructions change neither what an operand means nor the name of a slot that has one. -/
theorem slotOf?_run {i : Nat} {n : String}
    (hn : ((start h options).run ⟨ds, []⟩).locals.get? (((start h options).run ⟨ds, []⟩).slotAt i) =
      some n)
    (rs : List Instruction) {r : Instruction} (hr : Unlabelled r) (hi : r.operandIndex = some i) :
    ∃ ty, ((start h options).run ⟨ds, rs⟩).slotOf? r =
      some (((start h options).run ⟨ds, []⟩).slotAt i, ty) ∧
      (((start h options).run ⟨ds, rs⟩).localUse r).name = n := by
  have hslot : ((start h options).run ⟨ds, rs⟩).slotAt i =
      ((start h options).run ⟨ds, []⟩).slotAt i := by
    simp only [slotAt, declared_run, reachable_run.header_eq]
  obtain ⟨ty, hs⟩ := exists_slotOf?_of_unlabelled (m := (start h options).run ⟨ds, rs⟩) hr hi
  rw [hslot] at hs
  exact ⟨ty, hs, name_localUse hs (extends_foldl_step _ rs _ _ hn)⟩

end Machine

/-- An instruction that reads a slot. -/
def reading (i : Nat) : Instruction := ⟨0, .copyLoc, some (toString i), none⟩

theorem unlabelled_reading (i : Nat) : Unlabelled (reading i) :=
  fun a ha => absurd ha (by simp [reading])

/-- An operand is read from its digits. -/
theorem operandIndex_reading {i : Nat} (hi : i < wordLimit) :
    (reading i).operandIndex = some i := by
  have hdigit {c : Char} (hc : c ∈ Nat.toDigits 10 i) : c.isDigit = true :=
    isDigit_of_mem_toDigits hc
  have htrim : trim (Nat.toDigits 10 i) = Nat.toDigits 10 i := trim_of_forall fun c hc => by
    have := toNat_of_isDigit (hdigit hc)
    simp only [isBlank]
    grind
  show readWord? (trim (toString i).toList) = some i
  rw [Nat.toString_eq_repr, Nat.toList_repr, htrim, readWord?, readDigits?_toDigits hi]
  rintro ds hds
  exact absurd (hdigit (hds ▸ List.mem_cons_self)) (by decide)

/-- A slot is declared in one place. -/
theorem eq_of_slot_eq {ds : List SlotDecl} (hslots : (ds.map (·.slot)).Nodup) {i j : Nat}
    {d e : SlotDecl} (hd : ds[i]? = some d) (he : ds[j]? = some e) (heq : d.slot = e.slot) :
    i = j := by
  have hlt : i < (ds.map (·.slot)).length := by
    rw [List.length_map]
    exact (List.getElem?_eq_some_iff.1 hd).1
  refine (List.getElem?_inj hlt hslots).1 ?_
  rw [List.getElem?_map, List.getElem?_map, hd, he, Option.map_some, Option.map_some, heq]

namespace Machine

variable {h : FunctionHeader} {options : MachineOptions} {ds : List SlotDecl}

/-- Slots that are kept apart have different numbers. -/
theorem injective_of_keepsApart (hslots : (ds.map (·.slot)).Nodup)
    (hrange : ∀ d ∈ ds, h.parameters.length ≤ d.slot ∧ d.slot < wordLimit)
    (hapart : KeepsApart h options ds) {i j : Nat} {d e : SlotDecl} (hd : ds[i]? = some d)
    (he : ds[j]? = some e) (hnumber : d.number i = e.number j) : i = j := by
  by_contra hij
  have hslot : d.slot ≠ e.slot := fun heq => hij (eq_of_slot_eq hslots hd he heq)
  have hdmem := List.mem_of_getElem? hd
  have hemem := List.mem_of_getElem? he
  have hdop := operandIndex_reading (hrange d hdmem).2
  have heop := operandIndex_reading (hrange e hemem).2
  obtain ⟨s, s', ty, ty', hs, hs', hne, -⟩ :=
    hapart [] [] (unlabelled_reading _) (unlabelled_reading _) hdop heop hslot
      (.inr (List.mem_map_of_mem hdmem)) (.inr (List.mem_map_of_mem hemem))
  -- the two instructions mean the locals of the same number
  obtain ⟨uy, hu⟩ :=
    exists_slotOf?_of_unlabelled (m := (start h options).run ⟨ds, []⟩) (unlabelled_reading _) hdop
  obtain ⟨uy', hu'⟩ :=
    exists_slotOf?_of_unlabelled (m := (start h options).run ⟨ds, []⟩) (unlabelled_reading _) heop
  rw [slotAt_declared hslots hd (hrange d hdmem).1] at hu
  rw [slotAt_declared hslots he (hrange e hemem).1] at hu'
  have hfst := congrArg Prod.fst (Option.some.inj (hu.symm.trans hs))
  have hfst' := congrArg Prod.fst (Option.some.inj (hu'.symm.trans hs'))
  refine hne ?_
  calc s = .loc (d.number i) := hfst.symm
    _ = .loc (e.number j) := by rw [hnumber]
    _ = s' := hfst'

/-- Slots are kept apart if no number is given twice. -/
theorem keepsApart_of_numbersApart (hslots : (ds.map (·.slot)).Nodup)
    (hparams : ∀ d ∈ ds, h.parameters.length ≤ d.slot) (hapart : NumbersApart ds) :
    KeepsApart h options ds := by
  intro rs rs' r r' i i' hr hr' hop hop' hne hi hi'
  obtain ⟨n, hn⟩ := exists_name_listed options hslots hparams hi
  obtain ⟨n', hn'⟩ := exists_name_listed options hslots hparams hi'
  obtain ⟨ty, hs, hname⟩ := slotOf?_run hn rs hr hop
  obtain ⟨ty', hs', hname'⟩ := slotOf?_run hn' rs' hr' hop'
  have hslot : ((start h options).run ⟨ds, []⟩).slotAt i ≠
      ((start h options).run ⟨ds, []⟩).slotAt i' :=
    fun heq => hne (slotAt_injective options hslots hparams hapart hi hi' heq)
  refine ⟨_, _, ty, ty', hs, hs', hslot, ?_⟩
  rw [hname, hname']
  rintro rfl
  exact hslot (reachable_run.wellFormed.injective _ _ n hn hn')

/-- **Slots are kept apart just if no number is given twice**: if no two names have the same number,
and no slot without a number is counted up to one in a name. -/
theorem keepsApart_iff (h : FunctionHeader) (options : MachineOptions) {ds : List SlotDecl}
    (hslots : (ds.map (·.slot)).Nodup)
    (hrange : ∀ d ∈ ds, h.parameters.length ≤ d.slot ∧ d.slot < wordLimit) :
    KeepsApart h options ds ↔ NumbersApart ds :=
  ⟨fun hapart =>
      numbersApart_of_injective fun hd he => injective_of_keepsApart hslots hrange hapart hd he,
    keepsApart_of_numbersApart hslots fun d hd => (hrange d hd).1⟩

/-- A function with one parameter. -/
def unary : FunctionHeader := { name := "sum", parameters := [⟨"Arg0", "u64"⟩] }

/-- Names with numbers, and one that is counted to a number in none of them. -/
theorem keepsApart_iff_named :
    let ds : List SlotDecl := [⟨1, "rest", "u64"⟩, ⟨2, "loc7", "u64"⟩, ⟨3, "loc2", "bool"⟩]
    (ds.map (·.slot)).Nodup ∧ (∀ d ∈ ds, unary.parameters.length ≤ d.slot ∧ d.slot < wordLimit) ∧
    KeepsApart unary {} ds :=
  ⟨by decide, by decide, (keepsApart_iff _ {} (by decide) (by decide)).2 ⟨by decide, by decide⟩⟩

/-- A function without parameters that stores in two slots.  The first is called `x` and counted as
0, and the second is called `loc0`. -/
def twoStores : Body where
  locals := [⟨0, "x", "u64"⟩, ⟨1, "loc0", "u64"⟩]
  instructions := [⟨0, .ldInt .u64, none, some "1"⟩, ⟨1, .stLoc, some "0", none⟩,
    ⟨2, .ldInt .u64, none, some "2"⟩, ⟨3, .stLoc, some "1", none⟩, ⟨4, .ret, none, none⟩]

/-- **Two slots in one.**  Both slots get the number 0, and what is stored in them is
stored under one name. -/
theorem slots_merged :
    let ds := twoStores.locals
    (ds.map (·.slot)).Nodup ∧ (ds.map (·.name)).Nodup ∧ ¬ KeepsApart { name := "f" } {} ds ∧
    (interpret { name := "f" } twoStores {}).function.statements =
      ["let amount = 1;", "amount = 2;", "return;"] := by
  refine ⟨by decide, by decide, fun hapart => ?_, by decide +kernel⟩
  have hsame : 0 = 1 :=
    injective_of_keepsApart (by decide) (by decide) hapart (d := ⟨0, "x", "u64"⟩)
      (e := ⟨1, "loc0", "u64"⟩) rfl rfl (by decide)
  cases hsame

end Machine

/-! ## Labels and operands -/

/-- The slot that the bytecode counts as the `i`-th of a function with so many parameters. -/
def Slot.ofIndex (params i : Nat) : Slot := if i < params then .arg i else .loc (i - params)

/-- The remark is the label of the slot, alone or with a type behind a colon. -/
def Labelled (r : Instruction) (s : Slot) : Prop :=
  r.remark = some s.word ∨
    ∃ ty : String, ty.toList.head? ≠ some ':' ∧ r.remark = some (s.word ++ ":" ++ ty)

/-- The name is `loc` and then digits. -/
def IsLocalName (name : String) : Prop :=
  ∃ ds : List Char, ds ≠ [] ∧ ds.all Char.isDigit ∧ name = "loc" ++ String.ofList ds

/-- The slots are declared one after another behind the parameters, and each has the name that its
place gives it or a name that is not that of a local. -/
def InOrder (params : Nat) (ds : List SlotDecl) : Prop :=
  ∀ (j : Nat) (d : SlotDecl), ds[j]? = some d →
    d.slot = params + j ∧ (d.name = "loc" ++ toString j ∨ ¬ IsLocalName d.name)

theorem SlotDecl.ownNumber?_of_not {d : SlotDecl} (h : ¬ IsLocalName d.name) :
    d.ownNumber? = none := by
  rw [Option.eq_none_iff_forall_not_mem]
  intro k hk
  obtain ⟨ds, hafter, hread⟩ := Option.bind_eq_some_iff.1 hk
  have hname : d.name.toList = "loc".toList ++ ds := by
    unfold digitsAfter? at hafter
    split at hafter
    · next hprefix =>
      split at hafter
      · cases hafter
        exact afterPrefix?_eq_some_iff.1 hprefix
      · cases hafter
    · cases hafter
  have hdigits : ds ≠ [] ∧ ds.all Char.isDigit := by
    unfold readDigits? at hread
    split at hread
    · next hds => exact ⟨hds.1, hds.2.1⟩
    · cases hread
  refine h ⟨ds, hdigits.1, hdigits.2, ?_⟩
  rw [← String.toList_inj, hname, String.toList_append, String.toList_ofList (l := ds)]

/-- **In order, the number of a slot is its place.** -/
theorem InOrder.number_eq {params : Nat} {ds : List SlotDecl} (h : InOrder params ds) {j : Nat}
    {d : SlotDecl} (hd : ds[j]? = some d) : d.number j = j := by
  rcases (h j d hd).2 with hname | hname
  · have hnumber : d.ownNumber? = readDigits? (Nat.toDigits 10 j) := by
      rw [SlotDecl.ownNumber?, localNumber?, hname, digitsAfter?_append, Option.bind_some]
    rw [SlotDecl.number, hnumber]
    rcases lt_or_ge j wordLimit with hj | hj
    · rw [readDigits?_toDigits hj, Option.getD_some]
    · rw [readDigits?, digitsValue_toDigits, if_neg fun hd => absurd hd.2.2 (not_lt.2 hj),
        Option.getD_none]
  · exact SlotDecl.number_of_none (SlotDecl.ownNumber?_of_not hname) j

theorem InOrder.nodup {params : Nat} {ds : List SlotDecl} (h : InOrder params ds) :
    (ds.map (·.slot)).Nodup := by
  have hslots : ds.map (·.slot) = List.range' params ds.length := by
    refine List.ext_getElem (by simp) fun j _ _ => ?_
    rw [List.getElem_map, List.getElem_range', one_mul]
    exact (h j _ (List.getElem?_eq_getElem _)).1
  rw [hslots]
  exact List.nodup_range'

namespace Machine

variable {h : FunctionHeader} {options : MachineOptions} {ds : List SlotDecl}

/-- What an operand means is what the bytecode counts. -/
theorem slotAt_eq_ofIndex (hds : InOrder h.parameters.length ds) (rs : List Instruction) (i : Nat) :
    ((start h options).run ⟨ds, rs⟩).slotAt i = .ofIndex h.parameters.length i := by
  rw [Slot.ofIndex]
  split_ifs with hi
  · exact slotAt_parameter hi
  · have hparams : h.parameters.length ≤ i := not_lt.1 hi
    by_cases hmem : i ∈ ds.map (·.slot)
    · obtain ⟨d, hd, rfl⟩ := List.mem_map.1 hmem
      obtain ⟨j, hj⟩ := List.mem_iff_getElem?.1 hd
      rw [slotAt_declared hds.nodup hj hparams, hds.number_eq hj, (hds j d hj).1,
        Nat.add_sub_cancel_left]
    · exact slotAt_undeclared hmem hparams

theorem slotOf?_of_labelled (m : Machine) {r : Instruction} {s : Slot} (hs : s.number < wordLimit)
    (hr : Labelled r s) :
    ∃ ty, m.slotOf? r = some (s, ty) := by
  rcases hr with hr | ⟨ty, hty, hr⟩
  · exact ⟨none, m.slotOf?_of_label hs hr (labelAndType_word s)⟩
  · refine ⟨some (trim ty.toList), m.slotOf?_of_label hs hr ?_⟩
    rw [String.toList_append, String.toList_append, List.append_assoc]
    exact labelAndType_append s hty

/-- **Operands and labels agree.**  If the slots are declared in order, an instruction with an
operand and one with the label that the bytecode gives this operand mean the same slot, wherever in
the body they stand and whether or not it is declared. -/
theorem operand_agrees_label (h : FunctionHeader) (options : MachineOptions) {ds : List SlotDecl}
    (hds : InOrder h.parameters.length ds) (rs rs' : List Instruction)
    {r r' : Instruction} {i : Nat} (hr : Unlabelled r)
    (hi : r.operandIndex = some i) (hr' : Labelled r' (.ofIndex h.parameters.length i)) :
    ∃ ty ty', ((start h options).run ⟨ds, rs⟩).slotOf? r =
      some (.ofIndex h.parameters.length i, ty) ∧
      ((start h options).run ⟨ds, rs'⟩).slotOf? r' =
        some (.ofIndex h.parameters.length i, ty') := by
  have hnumber : (Slot.ofIndex h.parameters.length i).number < wordLimit := by
    have hword := Instruction.lt_of_operandIndex hi
    unfold Slot.ofIndex
    split_ifs
    · exact hword
    · exact lt_of_le_of_lt (Nat.sub_le _ _) hword
  obtain ⟨ty, hs⟩ := exists_slotOf?_of_unlabelled (m := (start h options).run ⟨ds, rs⟩) hr hi
  rw [slotAt_eq_ofIndex hds] at hs
  obtain ⟨ty', hs'⟩ := slotOf?_of_labelled ((start h options).run ⟨ds, rs'⟩) hnumber hr'
  exact ⟨ty, ty', hs, hs'⟩

/-- A parameter and two locals, of which one has the name of its place. -/
def ordered : List SlotDecl := [⟨1, "loc0", "u64"⟩, ⟨2, "sum", "u64"⟩]

theorem inOrder_ordered : InOrder 1 ordered := by
  intro j d hd
  match j with
  | 0 =>
    cases hd
    exact ⟨rfl, .inl (by decide)⟩
  | 1 =>
    cases hd
    refine ⟨rfl, .inr ?_⟩
    rintro ⟨ds, -, -, hname⟩
    have hhead := congrArg (fun s : String => s.toList.head?) hname
    simp at hhead
  | j + 2 => cases hd

/-- A slot behind the declared ones. -/
theorem operand_agrees_label_undeclared :
    let r' : Instruction := ⟨1, .moveLoc, none, some "loc2: vector<u64>"⟩
    InOrder 1 ordered ∧ Unlabelled (reading 3) ∧ (reading 3).operandIndex = some 3 ∧
    Labelled r' (.ofIndex 1 3) ∧
    ∃ ty ty', ((start unary {}).run ⟨ordered, []⟩).slotOf? (reading 3) = some (.loc 2, ty) ∧
      ((start unary {}).run ⟨ordered, [reading 3]⟩).slotOf? r' = some (.loc 2, ty') := by
  have hlabel : Labelled ⟨1, .moveLoc, none, some "loc2: vector<u64>"⟩ (.ofIndex 1 3) :=
    .inr ⟨" vector<u64>", by decide, by decide⟩
  exact ⟨inOrder_ordered, unlabelled_reading 3, by decide, hlabel,
    operand_agrees_label unary {} inOrder_ordered [] [reading 3] (unlabelled_reading 3)
      (operandIndex_reading (by decide)) hlabel⟩

end Machine

end PseudoMove
