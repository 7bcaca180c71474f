import PseudoMove.Proofs.NameHistory
import PseudoMove.Proofs.SlotNumbers
import Mathlib

/-!
# Names that can be used

A name can be used in source if it is an identifier and no word of the language (`IsUsable`).  A
number behind a name changes nothing about that, so a name can be used if its base can.

* `isUsable_nameFor_iff` — a base made from a type can be used, unless it begins with what a coin
  holds (`held?`), as this is not sanitized, and what is held cannot begin an identifier;
* `Origin` — what a slot is named after: the name that the listing gives a parameter, a type, or the
  slot itself.  A given name is sanitized, but it may be a word of the language;
* `LocalNames.MadeFrom` — the invariant of the table: the names of slots are made from the bases
  asked for, and every base asked for is in use itself;
* `names_usable_iff` — the names of results can always be used, and those of slots if and only
  if all origins allow it.
-/

namespace PseudoMove

open Text Identifier Naming TypeText Remark

/-! ## Identifiers -/

theorem isValid_append {s : List Char} (hs : s ≠ []) (t : List Char) :
    isValid (s ++ t) = (isValid s && t.all isPart) := by
  obtain ⟨c, s, rfl⟩ := List.exists_cons_of_ne_nil hs
  rw [List.cons_append, isValid, isValid, List.all_append, Bool.and_assoc]

/-! ## Names that can be used -/

/-- A name that can be used in source: an identifier, and no word of the language. -/
def IsUsable (name : String) : Prop := isValid name.toList = true ∧ name ∉ reserved

instance (name : String) : Decidable (IsUsable name) := inferInstanceAs (Decidable (_ ∧ _))

/-- No word of the language ends with a number. -/
theorem append_number_notMem_reserved (a : String) (n : Nat) : a ++ toString n ∉ reserved := by
  have hwords : ∀ w ∈ reserved, w.toList.getLast?.all (fun c => !c.isDigit) = true := by decide
  intro h
  have hne : (toString n).toList ≠ [] := by
    rw [Nat.toString_eq_repr, Nat.toList_repr]
    exact toDigits_ne_nil n
  have hdigit : ((toString n).toList.getLast hne).isDigit = true := by
    have hmem := List.getLast_mem hne
    simp only [Nat.toString_eq_repr, Nat.toList_repr] at hmem ⊢
    exact isDigit_of_mem_toDigits hmem
  have hlast := hwords _ h
  rw [String.toList_append, List.getLast?_append, List.getLast?_eq_some_getLast hne, Option.some_or,
    Option.all_some, hdigit] at hlast
  exact absurd hlast (by decide)

theorem isUsable_append_number {a : String} (ha : isValid a.toList = true) (n : Nat) :
    IsUsable (a ++ toString n) := by
  have hne : a.toList ≠ [] := by
    rintro h
    rw [h] at ha
    exact absurd ha (by decide)
  refine ⟨?_, append_number_notMem_reserved a n⟩
  rw [String.toList_append, isValid_append hne, ha, all_isPart_toString]
  rfl

theorem IsUsable.candidate {base : String} (h : IsUsable base) (k : Nat) :
    IsUsable (NameSupply.candidate base k) := by
  cases k with
  | zero => exact h
  | succ k =>
    have hne : base.toList ≠ [] := by
      intro hnil
      have hvalid := h.1
      rw [hnil] at hvalid
      exact absurd hvalid (by decide)
    refine isUsable_append_number ?_ (k + 1)
    rw [String.toList_append, isValid_append hne, h.1]
    decide

/-! ## Names from types -/

/-- What the coins or balances among the values of a type hold: a coin holds its first type
argument, and a vector what its elements hold. -/
def held? (ty : List Char) : Option (List Char) :=
  if holdsCurrency (String.ofList (baseName ty)) then (arguments ty).head?.map baseName
  else if String.ofList (baseName ty) = "vector" then
    match _h : arguments ty with
    | [] => none
    | elem :: _ => held? elem
  else none
termination_by ty.length
decreasing_by exact length_lt_of_mem_arguments (_h ▸ List.mem_cons_self)

/-- A vector holds what its elements hold. -/
theorem held?_vector {ty : List Char} (hv : String.ofList (baseName ty) = "vector") :
    held? ty = (arguments ty).head?.bind held? := by
  have h : ¬ holdsCurrency (String.ofList (baseName ty)) = true := by
    rw [hv]
    decide
  rw [held?, if_neg h, if_pos hv]
  split
  · next he => rw [he, List.head?_nil, Option.bind_none]
  · next he => rw [he, List.head?_cons, Option.bind_some]

theorem held?_of_ne {ty : List Char} (h : ¬ holdsCurrency (String.ofList (baseName ty)) = true)
    (hv : ¬ String.ofList (baseName ty) = "vector") : held? ty = none := by
  rw [held?, if_neg h, if_neg hv]

/-- The name of what is held can stand in front of a name: it is left out for a type parameter, and
otherwise begins an identifier. -/
def LeadsName (held : List Char) : Prop :=
  isTypeParameter held = true ∨ isValid (snakeCase held ++ ['_']) = true

instance (held : List Char) : Decidable (LeadsName held) := inferInstanceAs (Decidable (_ ∨ _))

theorem isValid_coinName_iff {base : List Char} (h : holdsCurrency (String.ofList base) = true)
    (args : List (List Char)) :
    isValid (coinName base args).toList = true ↔ ∀ held ∈ args.head?.map baseName,
      LeadsName held := by
  have hkind : isValid (snake base).toList = true ∧ (snake base).toList.all isPart = true := by
    rcases snake_of_holdsCurrency h with e | e <;> rw [e] <;> decide
  cases args with
  | nil => simp [coinName, hkind.1]
  | cons arg args =>
    simp only [coinName, List.head?_cons, Option.map_some, Option.mem_some_iff, forall_eq']
    split
    · next htype => simp [LeadsName, htype, hkind.1]
    · next htype =>
      have hbar : "_".toList = ['_'] := rfl
      have hleft : snakeCase (baseName arg) ++ ['_'] ≠ [] := by simp
      rw [String.toList_append, String.toList_append, hbar, snake, String.toList_ofList,
        isValid_append hleft, hkind.2, Bool.and_true, LeadsName]
      simp [htype]

theorem isValid_plural (name : String) (hne : name.toList ≠ []) :
    isValid (plural name).toList = isValid name.toList := by
  have hs : "s".toList.all isPart = true := by decide
  have hlist : "_list".toList.all isPart = true := by decide
  unfold plural
  split
  · rw [String.toList_append, isValid_append hne, hlist, Bool.and_true]
  · rw [String.toList_append, isValid_append hne, hs, Bool.and_true]

theorem isValid_ordinaryName (base : List Char) : isValid (ordinaryName base).toList = true := by
  unfold ordinaryName
  split
  · decide
  · rw [String.toList_ofList]
    exact isValid_sanitize _

/-- The name of a type is an identifier unless what its coins hold stands in the way. -/
theorem isValid_plainName_iff (ty : List Char) :
    isValid (plainName ty).toList = true ↔ ∀ held ∈ held? ty, LeadsName held := by
  fun_induction plainName ty with
  | case1 ty base h =>
    rw [held?, if_pos h]
    exact isValid_coinName_iff h _
  | case2 ty base h hv he =>
    rw [held?_vector hv, he]
    exact iff_of_true (by decide) (by simp)
  | case3 ty base h hv elem rest he hu =>
    -- bytes hold nothing
    have hreferent : referent elem = ['u', '8'] := by
      rw [← String.toList_ofList (l := referent elem), hu]; rfl
    have hbase : baseName elem = ['u', '8'] := by
      rw [baseName, hreferent]
      decide
    have hnone : held? elem = none := held?_of_ne (by rw [hbase]; decide) (by rw [hbase]; decide)
    rw [held?_vector hv, he, List.head?_cons, Option.bind_some, hnone]
    exact iff_of_true (by decide) (by simp)
  | case4 ty base h hv elem rest he hu ih =>
    have hne : (plainName elem).toList ≠ [] := by
      intro hnil
      have hname := (isName_plainName elem).ends
      rw [hnil] at hname
      exact absurd hname (by decide)
    rw [held?_vector hv, he, List.head?_cons, Option.bind_some, isValid_plural _ hne]
    exact ih
  | case5 ty base h hv name hn =>
    have hall : ∀ p ∈ wellKnown, isValid p.2.toList = true := by decide
    obtain ⟨l₁, l₂, he, -⟩ := List.lookup_eq_some_iff.1 hn
    rw [held?_of_ne h hv]
    exact iff_of_true (hall (String.ofList base, name) (by rw [he]; simp)) (by simp)
  | case6 ty base h hv hn =>
    rw [held?_of_ne h hv]
    exact iff_of_true (isValid_ordinaryName base) (by simp)

/-- A word of the language is an identifier, and so is the name made of it. -/
theorem isValid_escapeReserved (name : String) :
    isValid (escapeReserved name).toList = isValid name.toList := by
  have hwords : ∀ w ∈ reserved, isValid w.toList = true ∧ isValid (w ++ "_").toList = true := by
    decide
  unfold escapeReserved
  split
  · next h => rw [(hwords name h).1, (hwords name h).2]
  · rfl

theorem escapeReserved_notMem (name : String) : escapeReserved name ∉ reserved := by
  have hwords : ∀ w ∈ reserved, w ++ "_" ∉ reserved := by decide
  unfold escapeReserved
  split
  · next h => exact hwords name h
  · next h => exact h

/-- **A name made from a type can be used**, unless it begins with what a coin holds, and this is
no beginning of a name. -/
theorem isUsable_nameFor_iff (ty : List Char) (ctx : NameContext) :
    IsUsable (nameFor ty ctx) ↔ (impliedName ty ctx).isSome = true ∨
      ∀ held ∈ held? ty, LeadsName held := by
  have himplied : ∀ n ∈ impliedNames, isValid n.toList = true := by decide
  rw [IsUsable, nameFor, and_iff_left (escapeReserved_notMem _), isValid_escapeReserved]
  cases h : impliedName ty ctx with
  | none => simpa using isValid_plainName_iff ty
  | some name => exact iff_of_true (himplied name (mem_impliedNames h)) (.inl rfl)

/-! ## What a slot is named after -/

/-- What the name of a slot is made from: the name that the listing gives a parameter, a
type, or the slot itself. -/
inductive Origin where
  | given (name : String)
  | type (ty : List Char) (ctx : NameContext)
  | slot (s : Slot)
deriving DecidableEq, Repr

namespace Origin

/-- The base that is asked for. -/
def base : Origin → String
  | .given name => String.ofList (sanitize name.toList)
  | .type ty ctx => nameFor ty ctx
  | .slot s => Machine.localBase s none

/-- The name can be used: a given name is no word of the language, and of a type that no function
implies a name for, what its coins hold can stand in front of a name. -/
def Allows : Origin → Prop
  | .given name => String.ofList (sanitize name.toList) ∉ reserved
  | .type ty ctx => (impliedName ty ctx).isSome = true ∨ ∀ held ∈ held? ty, LeadsName held
  | .slot _ => True

theorem isUsable_base_iff (o : Origin) : IsUsable o.base ↔ o.Allows := by
  cases o with
  | given name =>
    refine and_iff_right ?_
    rw [base, String.toList_ofList]
    exact isValid_sanitize _
  | type ty ctx => exact isUsable_nameFor_iff ty ctx
  | slot s =>
    refine iff_of_true ?_ trivial
    cases s with
    | arg n => exact isUsable_append_number (a := "arg") (by decide) n
    | loc n => exact isUsable_append_number (a := "loc") (by decide) n

theorem isName_base (o : Origin) : IsName o.base := by
  cases o with
  | given name => exact isName_sanitize _
  | type ty ctx => exact isName_nameFor ty ctx
  | slot s => exact isName_localBase s none

end Origin

/-! ## The table -/

namespace LocalNames

variable {t : LocalNames} {bases : List String}

/-- The names of a table are made from these bases: each name of a slot from one of them, and each
of them is in use itself. Whatever is in use is the name of a slot or of a result. -/
structure MadeFrom (bases : List String) (t : LocalNames) : Prop where
  inOrder : t.supply.InOrder
  slot : ∀ slot name, t.get? slot = some name → ∃ base ∈ bases, ∃ k, name =
    NameSupply.candidate base k
  base : ∀ base ∈ bases, base ∈ t.supply.used
  used : ∀ name ∈ t.supply.used, (∃ slot, t.get? slot = some name) ∨
    ∃ k, name = NameSupply.candidate "result" k

theorem madeFrom_empty : ({} : LocalNames).MadeFrom [] where
  inOrder := NameSupply.inOrder_empty
  slot slot name h := absurd h (by simp [get?])
  base base h := absurd h List.not_mem_nil
  used name h := absurd h List.not_mem_nil

/-- A slot gets its name: the base is in use afterwards, as the name or before it. -/
theorem MadeFrom.bind (ht : t.MadeFrom bases) {slot : Slot} (hs : t.get? slot = none)
    {base : String} (hbase : base ≠ "") :
    (t.bind slot base).2.MadeFrom (bases ++ [base]) := by
  have hbaseOf : NameSupply.baseOf base = base := if_neg hbase
  obtain ⟨k, hk, hbelow, -⟩ := NameSupply.fresh_eq ht.inOrder base
  rw [hbaseOf] at hk hbelow
  have hname : (t.bind slot base).1 = NameSupply.candidate base k := by
    rw [bind_of_get?_none hs, hk]
  have hused : (t.bind slot base).2.supply.used = NameSupply.candidate base k :: t.supply.used := by
    rw [bind_of_get?_none hs, ← hk]
    rfl
  refine ⟨?_, ?_, ?_, ?_⟩
  · rw [bind_of_get?_none hs]
    exact ht.inOrder.fresh base
  · intro s name h
    rw [get?_bind] at h
    split at h
    · exact ⟨base, by simp, k, (Option.some.inj h).symm.trans hname⟩
    · obtain ⟨b, hb, hcandidate⟩ := ht.slot s name h
      exact ⟨b, List.mem_append_left _ hb, hcandidate⟩
  · intro b hb
    rw [hused, List.mem_cons]
    rcases List.mem_append.1 hb with hb | hb
    · exact .inr (ht.base b hb)
    · obtain rfl := List.mem_singleton.1 hb
      rcases Nat.eq_zero_or_pos k with rfl | hpos
      · exact .inl rfl
      · exact .inr (hbelow 0 hpos)
  · intro name h
    rw [hused, List.mem_cons] at h
    rcases h with rfl | h
    · exact .inl ⟨slot, by rw [get?_bind, if_pos rfl, hname]⟩
    · rcases ht.used name h with ⟨s, hn⟩ | hresult
      · exact .inl ⟨s, extends_bind t slot base s name hn⟩
      · exact .inr hresult

/-- Results get their names. -/
theorem MadeFrom.temporaries (ht : t.MadeFrom bases) (n : Nat) :
    (t.temporaries "result" n).2.MadeFrom bases := by
  induction n generalizing t with
  | zero => exact ht
  | succ n ih =>
    refine ih
      ⟨ht.inOrder.fresh "result", ht.slot, fun b hb => List.mem_cons_of_mem _ (ht.base b hb), ?_⟩
    intro name h
    rcases List.mem_cons.1 h with rfl | h
    · exact .inr ⟨_, rfl⟩
    · exact ht.used name h

theorem candidate_of_mem_temporaries {n : Nat} {name : String}
    (h : name ∈ (t.temporaries "result" n).1) :
    ∃ k, name = NameSupply.candidate "result" k := by
  induction n generalizing t with
  | zero => exact absurd h List.not_mem_nil
  | succ n ih =>
    rcases List.mem_cons.1 h with rfl | h
    · exact ⟨_, rfl⟩
    · exact ih h

theorem isUsable_result (k : Nat) : IsUsable (NameSupply.candidate "result" k) :=
  IsUsable.candidate (by decide) k

/-- **The names of slots can be used if and only if their bases can**: a base that cannot be used is
itself in use, and it is not the name of a result. -/
theorem MadeFrom.isUsable_iff (ht : t.MadeFrom bases) :
    (∀ slot name, t.get? slot = some name → IsUsable name) ↔ ∀ base ∈ bases, IsUsable base := by
  constructor
  · intro h base hb
    rcases ht.used base (ht.base base hb) with ⟨slot, hn⟩ | ⟨k, rfl⟩
    · exact h slot base hn
    · exact isUsable_result k
  · intro h slot name hn
    obtain ⟨base, hb, k, rfl⟩ := ht.slot slot name hn
    exact (h base hb).candidate k

/-- Slots without names get theirs, one after the other. -/
theorem MadeFrom.foldl_bind (ht : t.MadeFrom bases) {bs : List (Slot × String)}
    (hnodup : (bs.map (·.1)).Nodup) (hs : ∀ b ∈ bs, t.get? b.1 = none) (hbs : ∀ b ∈ bs, b.2 ≠ "") :
    (bs.foldl (fun t b => (t.bind b.1 b.2).2) t).MadeFrom (bases ++ bs.map (·.2)) := by
  induction bs generalizing t bases with
  | nil => simpa using ht
  | cons b bs ih =>
    rw [List.map_cons, List.nodup_cons] at hnodup
    have hone := ht.bind (hs b List.mem_cons_self) (hbs b List.mem_cons_self)
    have hfree : ∀ c ∈ bs, (t.bind b.1 b.2).2.get? c.1 = none := by
      intro c hc
      have hne : c.1 ≠ b.1 := fun e => hnodup.1 (e ▸ List.mem_map_of_mem hc)
      rw [get?_bind, if_neg hne]
      exact hs c (List.mem_cons_of_mem b hc)
    have hall := ih hone hnodup.2 hfree fun c hc => hbs c (List.mem_cons_of_mem b hc)
    rwa [List.append_assoc] at hall

end LocalNames

/-! ## The machine -/

namespace Machine

variable {h : FunctionHeader} {options : MachineOptions} {m : Machine} {bases : List String}

/-- What the name of a parameter is made from. -/
def parameterOrigin (h : FunctionHeader) (i : Nat) (p : Parameter) : Origin :=
  if isArgName p.name.toList ∨ p.name.toList = [] then
    let base := TypeText.baseName p.paramType.toList
    let earlier := (h.parameters.take i).countP fun q => TypeText.baseName q.paramType.toList = base
    .type p.paramType.toList { function := some h.name, position := earlier }
  else .given p.name

theorem base_parameterOrigin (h : FunctionHeader) (i : Nat) (p : Parameter) :
    (parameterOrigin h i p).base = parameterBase h i p := by
  unfold parameterOrigin parameterBase
  dsimp only
  split <;> rfl

/-- Whether an instruction means a local. -/
def usesLocal : Opcode → Bool
  | .copyLoc | .moveLoc | .immBorrowLoc | .mutBorrowLoc | .stLoc => true
  | _ => false

/-- The slot that an operation asks a name for, and what this name is to be made from. -/
def asks? (m : Machine) : Operation → Option (Slot × Origin)
  | .declare d => some (.loc (d.number m.declared.length), .type d.slotType.toList {})
  | .step r =>
    if usesLocal r.opcode then
      (m.slotOf? r).map fun p => (p.1, p.2.elim (.slot p.1) fun ty => .type ty {})
    else none

/-- What an operation makes a new name from: a slot that has a name keeps it. -/
def newOrigins (m : Machine) (o : Operation) : List Origin :=
  ((m.asks? o).filter fun p => (m.locals.get? p.1).isNone).toList.map (·.2)

/-- What operations make names of slots from, one after the other. -/
def origins (m : Machine) : List Operation → List Origin
  | [] => []
  | o :: os => m.newOrigins o ++ (m.act o).origins os

/-- What all names of slots in a run are made from: those of the parameters first. -/
def allOrigins (h : FunctionHeader) (options : MachineOptions) (os : List Operation) :
    List Origin :=
  h.parameters.mapIdx (parameterOrigin h) ++ (start h options).origins os

theorem locals_effect_of_usesLocal {r : Instruction} (hr : usesLocal r.opcode = true) :
    (m.effect r).locals = (m.localUse r).locals := by
  revert hr
  unfold effect
  cases r.opcode
  case copyLoc | moveLoc | immBorrowLoc | mutBorrowLoc | stLoc => exact fun _ => rfl
  all_goals exact fun hr => absurd hr (by simp [usesLocal])

theorem locals_effect_of_not_usesLocal {r : Instruction} (hr : ¬ usesLocal r.opcode = true) :
    ∃ n, (m.effect r).locals = (m.locals.temporaries "result" n).2 := by
  revert hr
  unfold effect
  cases r.opcode
  case copyLoc | moveLoc | immBorrowLoc | mutBorrowLoc | stLoc => exact fun hr => absurd rfl hr
  case call =>
    intro _
    dsimp only
    split
    · unfold callEffect
      dsimp only
      split
      · exact ⟨0, rfl⟩
      · exact ⟨0, rfl⟩
      · exact ⟨_, rfl⟩
    · exact ⟨0, rfl⟩
  case ret =>
    intro _
    show ∃ n, m.returnEffect.locals = _
    unfold returnEffect
    split <;> exact ⟨0, rfl⟩
  all_goals exact fun _ => ⟨0, rfl⟩

/-- The table after an operation: the slot that it asks for has its name, or results have theirs. -/
theorem locals_act (m : Machine) (o : Operation) :
    (∃ slot origin, m.asks? o = some (slot, origin) ∧
      (m.act o).locals = (m.locals.bind slot origin.base).2) ∨
      m.asks? o = none ∧ ∃ n, (m.act o).locals = (m.locals.temporaries "result" n).2 := by
  cases o with
  | declare d => exact .inl ⟨_, _, rfl, rfl⟩
  | step r =>
    have hlocals : (m.act (.step r)).locals = (m.effect r).locals := rfl
    by_cases hr : usesLocal r.opcode = true
    · rw [hlocals, locals_effect_of_usesLocal hr, localUse, asks?, if_pos hr]
      cases hs : m.slotOf? r with
      | none => exact .inr ⟨rfl, 0, rfl⟩
      | some p =>
        obtain ⟨slot, ty⟩ := p
        refine .inl ⟨slot, _, rfl, ?_⟩
        cases ty <;> rfl
    · rw [hlocals, asks?, if_neg hr]
      exact .inr ⟨rfl, locals_effect_of_not_usesLocal hr⟩

/-- **An operation adds what it makes a name from.** -/
theorem madeFrom_act (hm : m.locals.MadeFrom bases) (o : Operation) :
    (m.act o).locals.MadeFrom (bases ++ (m.newOrigins o).map Origin.base) := by
  rcases m.locals_act o with ⟨slot, origin, hasks, hlocals⟩ | ⟨hasks, n, hlocals⟩
  · rw [hlocals, newOrigins, hasks]
    cases hs : m.locals.get? slot with
    | some name =>
      rw [LocalNames.bind_of_get? hs]
      simpa [Option.filter, hs] using hm
    | none =>
      have hbase : origin.base ≠ "" := origin.isName_base.ne_of_not (by decide)
      simpa [Option.filter, hs] using hm.bind hs hbase
  · rw [hlocals, newOrigins, hasks]
    simpa using hm.temporaries n

theorem madeFrom_actAll (hm : m.locals.MadeFrom bases) (os : List Operation) :
    (m.actAll os).locals.MadeFrom (bases ++ (m.origins os).map Origin.base) := by
  induction os generalizing m bases with
  | nil =>
    rw [origins, List.map_nil, List.append_nil]
    exact hm
  | cons o os ih =>
    rw [origins, List.map_append, ← List.append_assoc]
    exact ih (madeFrom_act hm o)

theorem madeFrom_parameterTable (h : FunctionHeader) :
    (parameterTable h).MadeFrom ((h.parameters.mapIdx (parameterOrigin h)).map Origin.base) := by
  have hslots : (h.parameters.mapIdx fun i p => (Slot.arg i, parameterBase h i p)).map (·.1) =
      (List.range h.parameters.length).map Slot.arg :=
    List.ext_getElem (by simp) fun i _ _ => by simp
  have hbases : (h.parameters.mapIdx fun i p => (Slot.arg i, parameterBase h i p)).map (·.2) =
      (h.parameters.mapIdx (parameterOrigin h)).map Origin.base :=
    List.ext_getElem (by simp) fun i _ _ => by simp [base_parameterOrigin]
  have hnodup : ((List.range h.parameters.length).map Slot.arg).Nodup :=
    List.nodup_range.map fun i j e => Slot.arg.inj e
  have hall :=
    LocalNames.madeFrom_empty.foldl_bind (hslots ▸ hnodup) (fun b _ => by simp [LocalNames.get?])
      fun b hb => by
      obtain ⟨i, hi, rfl⟩ := List.mem_mapIdx.1 hb
      exact (isName_parameterBase h i _).ne_of_not (by decide)
  rwa [List.nil_append, hbases] at hall

/-- **All names of a run are made from its origins.** -/
theorem madeFrom_run (h : FunctionHeader) (options : MachineOptions) (os : List Operation) :
    ((start h options).actAll os).locals.MadeFrom ((allOrigins h options os).map Origin.base) := by
  rw [allOrigins, List.map_append]
  exact madeFrom_actAll (m := start h options) (madeFrom_parameterTable h) os

/-- The names that a target gives to no slot are those of results. -/
theorem candidate_of_mem_target {o : Operation} {target : Target}
    (htarget : m.targetOf? o = some target) {name : String} (hname : name ∈ target.temporaries) :
    ∃ k, name = NameSupply.candidate "result" k := by
  cases o with
  | declare d => exact absurd htarget (by simp [targetOf?])
  | step r =>
    have htarget : m.target? r = some target := htarget
    unfold target? at htarget
    split at htarget
    · obtain ⟨p, -, rfl⟩ := Option.map_eq_some_iff.1 htarget
      dsimp only at hname
      split at hname <;> exact absurd hname List.not_mem_nil
    · obtain ⟨f, -, htarget⟩ := Option.bind_eq_some_iff.1 htarget
      obtain ⟨-, htarget⟩ := Option.ite_none_right_eq_some.1 htarget
      obtain rfl := Option.some.inj htarget
      exact LocalNames.candidate_of_mem_temporaries hname
    · exact absurd htarget (by simp)

theorem isUsable_of_mem_temporaryNames (m : Machine) (os : List Operation) {name : String}
    (hname : name ∈ temporaryNames (m.targets os)) : IsUsable name := by
  induction os generalizing m with
  | nil => exact absurd hname List.not_mem_nil
  | cons o os ih =>
    rw [targets, temporaryNames_append, List.mem_append] at hname
    rcases hname with hname | hname
    · obtain ⟨target, htarget, hname⟩ := List.mem_flatMap.1 hname
      rw [Option.mem_toList] at htarget
      obtain ⟨k, rfl⟩ := candidate_of_mem_target htarget hname
      exact LocalNames.isUsable_result k
    · exact ih _ hname

/-- **Which names can be used.** After any operations, the names of results can be used, and the
names of slots can be used if and only if no parameter was given a word of the language for its
name, and no coin or balance is named after what cannot begin a name. -/
theorem names_usable_iff (h : FunctionHeader) (options : MachineOptions) (os : List Operation) :
    (∀ name ∈ temporaryNames ((start h options).targets os), IsUsable name) ∧
      ((∀ slot name, ((start h options).actAll os).locals.get? slot = some name → IsUsable name) ↔
        ∀ o ∈ allOrigins h options os, o.Allows) := by
  refine ⟨fun name => isUsable_of_mem_temporaryNames _ os, ?_⟩
  rw [(madeFrom_run h options os).isUsable_iff, List.forall_mem_map]
  exact forall₂_congr fun o _ => o.isUsable_base_iff

/-- A parameter that is given a word of the language for its name, and a coin that holds a
function. -/
def typeHeader : FunctionHeader where
  name := "f"
  parameters := [⟨"type", "u64"⟩, ⟨"Arg1", "Coin<|u64|bool>"⟩]

/-- Takes both parameters and drops them. -/
def drops : List Operation :=
  [.step ⟨0, .moveLoc, some "0", none⟩, .step ⟨1, .pop, none, none⟩,
    .step ⟨2, .moveLoc, some "1", none⟩, .step ⟨3, .pop, none, none⟩]

/-- Neither parameter gets a name that can be used: one is a word of the language,
the other no identifier. -/
theorem names_unusable :
    ((start typeHeader {}).actAll drops).locals.names =
      [(.arg 0, "type"), (.arg 1, "|u64|bool_coin")] ∧
      ((start typeHeader {}).actAll drops).statements = ["_ = type;", "_ = |u64|bool_coin;"] ∧
      "type" ∈ reserved ∧ isValid "|u64|bool_coin".toList = false ∧
      ¬ ∀ slot name, ((start typeHeader {}).actAll drops).locals.get? slot = some name →
        IsUsable name := by
  have hnames : ((start typeHeader {}).actAll drops).locals.names =
      [(.arg 0, "type"), (.arg 1, "|u64|bool_coin")] := by
    decide +kernel
  have hget : ((start typeHeader {}).actAll drops).locals.get? (.arg 0) = some "type" := by
    rw [LocalNames.get?, hnames]
    rfl
  refine ⟨hnames, by decide +kernel, by decide, by decide, fun hall => ?_⟩
  exact absurd (hall (.arg 0) "type" hget) (by decide)

end Machine

end PseudoMove
