import PseudoMove.Proofs.NameHistory

/-!
# Names that parameters are given

The names of parameters are asked for before all others, one after the other.  A name that is asked
for while it is free is handed out as it is (`NameSupply.fresh_of_notMem`), so distinct bases become
the names of the parameters unchanged (`get?_parameterTable_of_nodup`).  An identifier that a
listing gives a parameter is its own base, and no body changes a name: parameters with distinct
names of their own keep them (`parameters_interpret`).
-/

namespace PseudoMove

open Text Identifier Remark

/-- A name that is free is handed out when it is asked for. -/
theorem NameSupply.fresh_of_notMem {a : NameSupply} (ha : a.InOrder) {base : String}
    (hne : base ≠ "") (hfree : base ∉ a.used) : (a.fresh base).1 = base := by
  obtain ⟨k, hk, hbelow, -⟩ := fresh_eq ha base
  have hbase : baseOf base = base := if_neg hne
  rw [hbase] at hk hbelow
  cases k with
  | zero => exact hk
  | succ k => exact absurd (hbelow 0 (Nat.succ_pos k)) hfree

namespace LocalNames

/-- The table with some slots bound, one after the other. -/
def bindAll (t : LocalNames) (bs : List (Slot × String)) : LocalNames :=
  bs.foldl (fun t b => (t.bind b.1 b.2).2) t

variable {t : LocalNames}

theorem extends_bindAll (t : LocalNames) (bs : List (Slot × String)) :
    t.Extends (t.bindAll bs) := by
  induction bs generalizing t with
  | nil => exact Extends.refl t
  | cons b bs ih => exact (extends_bind t b.1 b.2).trans (ih _)

/-- Slots without names get the names asked for, if these are distinct and free. -/
theorem get?_bindAll {bs : List (Slot × String)}
    (ht : t.supply.InOrder) (hslots : (bs.map (·.1)).Nodup)
    (hnames : (bs.map (·.2)).Nodup) (hunnamed : ∀ b ∈ bs, t.get? b.1 = none)
    (hfree : ∀ b ∈ bs, b.2 ≠ "" ∧ b.2 ∉ t.supply.used) :
    ∀ b ∈ bs, (t.bindAll bs).get? b.1 = some b.2 := by
  induction bs generalizing t with
  | nil => exact fun b hb => absurd hb List.not_mem_nil
  | cons b bs ih =>
    rw [List.map_cons, List.nodup_cons] at hslots hnames
    obtain ⟨hne, hnot⟩ := hfree b List.mem_cons_self
    have hname : (t.supply.fresh b.2).1 = b.2 := NameSupply.fresh_of_notMem ht hne hnot
    have hbind : t.bind b.1 b.2 =
        (b.2, { names := t.names ++ [(b.1, b.2)], supply := (t.supply.fresh b.2).2 }) := by
      rw [bind_of_get?_none (hunnamed b List.mem_cons_self), hname]
    have hget : (t.bind b.1 b.2).2.get? b.1 = some b.2 := by rw [get?_bind_self, hbind]
    -- behind the first slot the others are still without names, and their names are still free
    have hinOrder : (t.bind b.1 b.2).2.supply.InOrder := by
      rw [hbind]
      exact ht.fresh b.2
    have hrest := ih hinOrder hslots.2 hnames.2
      (fun c hc => by
        have hslot : c.1 ≠ b.1 := fun e => hslots.1 (e ▸ List.mem_map_of_mem hc)
        rw [get?_bind, if_neg hslot]
        exact hunnamed c (List.mem_cons_of_mem b hc))
      (fun c hc => by
        obtain ⟨hne, hnot⟩ := hfree c (List.mem_cons_of_mem b hc)
        have hother : c.2 ≠ b.2 := fun e => hnames.1 (e ▸ List.mem_map_of_mem hc)
        rw [hbind]
        exact ⟨hne, by simp [NameSupply.used_fresh, hname, hother, hnot]⟩)
    intro c hc
    rcases List.mem_cons.1 hc with rfl | hc
    · exact extends_bindAll _ bs _ _ hget
    · exact hrest c hc

end LocalNames

namespace Machine

variable {h : FunctionHeader}

/-- Parameters with distinct bases are named after them. -/
theorem get?_parameterTable_of_nodup (hbases : (h.parameters.mapIdx (parameterBase h)).Nodup)
    {i : Nat} {p : Parameter} (hp : h.parameters[i]? = some p) :
    (parameterTable h).get? (.arg i) = some (parameterBase h i p) := by
  have hslots : (h.parameters.mapIdx fun i p => (Slot.arg i, parameterBase h i p)).map (·.1) =
      (List.range h.parameters.length).map Slot.arg :=
    List.ext_getElem (by simp) fun i _ _ => by simp
  have hnames : (h.parameters.mapIdx fun i p => (Slot.arg i, parameterBase h i p)).map (·.2) =
      h.parameters.mapIdx (parameterBase h) := List.ext_getElem (by simp) fun i _ _ => by simp
  have hmem : (Slot.arg i, parameterBase h i p) ∈ h.parameters.mapIdx fun i p =>
      (Slot.arg i, parameterBase h i p) := by
    obtain ⟨hi, rfl⟩ := List.getElem?_eq_some_iff.1 hp
    exact List.mem_mapIdx.2 ⟨i, hi, rfl⟩
  refine LocalNames.get?_bindAll (t := {}) NameSupply.inOrder_empty ?_ ?_ (fun _ _ => rfl) ?_ _ hmem
  · rw [hslots]
    exact List.nodup_range.map fun i j e => Slot.arg.inj e
  · rwa [hnames]
  · intro b hb
    obtain ⟨j, hj, rfl⟩ := List.mem_mapIdx.1 hb
    exact ⟨(isName_parameterBase h j _).ne_of_not (by decide), List.not_mem_nil⟩

/-- A parameter that is given an identifier is named after it. -/
theorem parameterBase_of_isValid {p : Parameter} (hvalid : isValid p.name.toList = true)
    (harg : isArgName p.name.toList = false) (i : Nat) : parameterBase h i p = p.name := by
  have hne : p.name.toList ≠ [] := by
    intro hnil
    rw [hnil] at hvalid
    exact absurd hvalid (by decide)
  have hown : ¬ (isArgName p.name.toList = true ∨ p.name.toList = []) := by simp [harg, hne]
  rw [parameterBase, if_neg hown, sanitize, if_pos hvalid, String.ofList_toList]

/-- **Parameters keep the names they are given.** If the names of the parameters are
distinct identifiers, none of them `Arg` and digits, the parameters of the function that is
written are those of the listing, name by name and type by type in their order, whatever the
body declares and does. -/
theorem parameters_interpret {h : FunctionHeader} (hdistinct : (h.parameters.map (·.name)).Nodup)
    (hgiven : ∀ p ∈ h.parameters, isValid p.name.toList = true ∧ isArgName p.name.toList = false)
    (b : Body) (options : MachineOptions) :
    (interpret h b options).function.parameters = h.parameters := by
  have hbase : ∀ (i : Nat) (p : Parameter), p ∈ h.parameters → parameterBase h i p = p.name :=
    fun i p hp => parameterBase_of_isValid (hgiven p hp).1 (hgiven p hp).2 i
  have hbases : h.parameters.mapIdx (parameterBase h) = h.parameters.map (·.name) :=
    List.ext_getElem (by simp) fun i hi _ => by
      rw [List.length_mapIdx] at hi
      rw [List.getElem_mapIdx, List.getElem_map, hbase i _ (List.getElem_mem hi)]
  have hreach : Reachable h options ((start h options).run b) :=
    (Reachable.start.foldl_declare b.locals).foldl_step b.instructions
  have hextends : (parameterTable h).Extends ((start h options).run b).locals :=
    ((start h options).extends_foldl_declare b.locals).trans (extends_foldl_step _ b.instructions)
  refine List.ext_getElem? fun i => ?_
  cases hp : h.parameters[i]? with
  | none =>
    show ((start h options).run b).namedParameters[i]? = none
    rw [namedParameters, hreach.header_eq, List.getElem?_mapIdx, hp, Option.map_none]
  | some p =>
    have hname := get?_parameterTable_of_nodup (hbases ▸ hdistinct) hp
    rw [hbase i p (List.mem_of_getElem? hp)] at hname
    exact parameter_result hreach hp (hextends _ _ hname)

/-- A function whose names look like numbered ones, and whose body asks for the same names again. -/
def crowded : FunctionHeader where
  name := "crowded"
  parameters := [⟨"x_1", "u64"⟩, ⟨"x", "&mut Coin<SUI>"⟩, ⟨"amount", "u64"⟩, ⟨"Arg", "bool"⟩]

/-- Its body: the declared slot and the results of the call are named after the parameters. -/
def crowdedBody : Body where
  locals := [⟨4, "loc0", "u64"⟩]
  instructions :=
    [⟨0, .copyLoc, some "0", none⟩, ⟨1, .call, none, some "pool::halve(u64):(u64,u64)"⟩,
      ⟨2, .stLoc, some "4", none⟩, ⟨3, .stLoc, none, some "Arg1: u64"⟩]

theorem parameters_interpret_crowded :
    (crowded.parameters.map (·.name)).Nodup ∧
      (∀ p ∈ crowded.parameters, isValid p.name.toList = true ∧ isArgName p.name.toList = false) ∧
      (interpret crowded crowdedBody {}).function.parameters = crowded.parameters ∧
      (interpret crowded crowdedBody {}).function.statements =
        ["let (result, result_1) = pool::halve(x_1);", "let amount_1 = result_1;",
          "x = result;"] := by
  have hdistinct : (crowded.parameters.map (·.name)).Nodup := by decide
  have hgiven : ∀ p ∈ crowded.parameters, isValid p.name.toList = true ∧
      isArgName p.name.toList = false := by decide
  exact ⟨hdistinct, hgiven, parameters_interpret hdistinct hgiven crowdedBody {}, by decide +kernel⟩

end Machine

end PseudoMove
