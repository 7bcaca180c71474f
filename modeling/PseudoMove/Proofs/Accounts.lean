import PseudoMove.Decompilation
import PseudoMove.Proofs.Overflow
import Mathlib.Data.List.Forall2

/-!
# The accounts of a decompilation

What is counted in a module is counted along several ways: instructions by function and by family,
opcodes that are not known by the machine that skips them and by the statistics, branches and calls
by function and among the families.  They agree (`Decompilation.accounts_of_ok`), and every function
listed is in the module and in the statistics, in order.

* `Tally.Counts` — a tally has the names that it counted, each once and with the
  number of times it occurred;
* `Tally.Counts.addAll` — and counting more names keeps that;
* `Decompilation.statisticsOf_eq` — what the statistics of some runs come to, each entry in closed
  form;
* `unknownOpcodes_interpret` — the machine skips just the instructions with an unknown opcode.
-/

namespace PseudoMove

/-! ## Tallies -/

namespace Tally

variable {t : Tally} {names : List String} {name : String}

/-- How often a name was counted. -/
def count (t : Tally) (name : String) : Nat := (t.lookup name).getD 0

/-- The names of a tally increase. -/
def Increases (t : Tally) : Prop := t.Pairwise fun a b => a.1 < b.1

/-- The tally has the names of a list, each once and with the number of times it occurs. -/
structure Counts (t : Tally) (names : List String) : Prop where
  increases : t.Increases
  count_eq : ∀ name, t.count name = names.count name
  pos : ∀ e ∈ t, 0 < e.2

/-! ### Looking up -/

@[simp] theorem count_nil (name : String) : count [] name = 0 := rfl

@[simp] theorem count_cons_self (name : String) (n : Nat) (t : Tally) :
    count ((name, n) :: t) name = n := by
  simp [count]

theorem count_cons_of_ne {k : String} (h : name ≠ k) (n : Nat) (t : Tally) :
    count ((k, n) :: t) name = t.count name := by
  have hbeq : (name == k) = false := by simpa using h
  simp [count, List.lookup_cons, hbeq]

/-- A name that is less than all of a tally is not in it. -/
theorem count_eq_zero (h : ∀ e ∈ t, name < e.1) : t.count name = 0 := by
  induction t with
  | nil => rfl
  | cons e t ih =>
    rw [count_cons_of_ne (h e List.mem_cons_self).ne e.2 t]
    exact ih fun e he => h e (List.mem_cons_of_mem _ he)

/-! ### Counting -/

/-- Counting a name adds one to its count and leaves the others. -/
theorem count_add (ht : t.Increases) (name x : String) :
    (t.add name).count x = t.count x + if x = name then 1 else 0 := by
  induction t with
  | nil =>
    by_cases hx : x = name
    · subst hx
      simp [add]
    · simp [add, count_cons_of_ne hx, hx]
  | cons e t ih =>
    obtain ⟨k, n⟩ := e
    obtain ⟨hk, ht⟩ := List.pairwise_cons.1 ht
    rw [add]
    split
    · next hname =>
      subst hname
      by_cases hx : x = name
      · simp [hx]
      · simp [count_cons_of_ne hx, hx]
    · next hname =>
      split
      · next hlt =>
        by_cases hx : x = name
        · have hzero : count ((k, n) :: t) x = 0 := by
            refine count_eq_zero fun e he => ?_
            rcases List.mem_cons.1 he with rfl | he
            · exact hx ▸ hlt
            · exact hx ▸ hlt.trans (hk e he)
          simp [hx, hx ▸ hzero]
        · simp [count_cons_of_ne hx, hx]
      · by_cases hx : x = k
        · simp [hx, Ne.symm hname]
        · rw [count_cons_of_ne hx, count_cons_of_ne hx, ih ht]

/-- The entries of a tally after counting: those that were there, and one with the name. -/
theorem mem_add {e : String × Nat} (h : e ∈ t.add name) : e ∈ t ∨ e.1 = name ∧ 0 < e.2 := by
  induction t with
  | nil => simp_all [add]
  | cons d t ih =>
    rw [add] at h
    split at h
    · next hname =>
      rcases List.mem_cons.1 h with rfl | h
      · exact .inr ⟨hname.symm, Nat.succ_pos _⟩
      · exact .inl (List.mem_cons_of_mem _ h)
    · split at h
      · rcases List.mem_cons.1 h with rfl | h
        · exact .inr ⟨rfl, Nat.one_pos⟩
        · exact .inl h
      · rcases List.mem_cons.1 h with rfl | h
        · exact .inl List.mem_cons_self
        · exact (ih h).imp_left (List.mem_cons_of_mem _)

theorem Increases.add (ht : t.Increases) (name : String) : (t.add name).Increases := by
  induction t with
  | nil => exact List.pairwise_singleton _ _
  | cons e t ih =>
    obtain ⟨k, n⟩ := e
    obtain ⟨hk, hrest⟩ := List.pairwise_cons.1 ht
    rw [Tally.add]
    split
    · exact List.pairwise_cons.2 ⟨hk, hrest⟩
    · next hne =>
      split
      · next hlt =>
        refine List.pairwise_cons.2 ⟨fun e he => ?_, ht⟩
        rcases List.mem_cons.1 he with rfl | he
        · exact hlt
        · exact hlt.trans (hk e he)
      · next hle =>
        refine List.pairwise_cons.2 ⟨fun e he => ?_, ih hrest⟩
        rcases mem_add he with he | ⟨rfl, -⟩
        · exact hk e he
        · exact lt_of_le_of_ne (le_of_not_gt hle) (Ne.symm hne)

@[simp] theorem addAll_nil (t : Tally) : t.addAll [] = t := rfl

@[simp] theorem addAll_cons (t : Tally) (name : String) (names : List String) :
    t.addAll (name :: names) = (t.add name).addAll names := rfl

theorem addAll_append (t : Tally) (a b : List String) : t.addAll (a ++ b) = (t.addAll a).addAll b :=
  List.foldl_append

theorem Counts.nil : Counts [] [] := ⟨List.Pairwise.nil, fun _ => rfl, fun _ h => by simp at h⟩

theorem Counts.add (h : t.Counts names) (name : String) :
    (t.add name).Counts (names ++ [name]) where
  increases := h.increases.add name
  count_eq x := by
    rw [count_add h.increases, h.count_eq, List.count_append, List.count_singleton]
    by_cases hx : x = name
    · simp [hx]
    · simp [hx, Ne.symm hx]
  pos e he := (mem_add he).elim (h.pos e) (·.2)

/-- **Counting more names**: the tally counts the names before and those. -/
theorem Counts.addAll (h : t.Counts names) (more : List String) :
    (t.addAll more).Counts (names ++ more) := by
  induction more generalizing t names with
  | nil => simpa using h
  | cons name more ih => simpa using ih (h.add name)

theorem counts_addAll (names : List String) : Counts (addAll [] names) names := by
  simpa using Counts.nil.addAll names

/-! ### Totals -/

theorem total_eq_sum (t : Tally) : t.total = (t.map (·.2)).sum := by
  rw [List.sum_eq_foldl, List.foldl_map]
  rfl

theorem total_add (t : Tally) (name : String) : (t.add name).total = t.total + 1 := by
  simp only [total_eq_sum]
  induction t with
  | nil => rfl
  | cons e t ih =>
    rw [add]
    split
    · simp only [List.map_cons, List.sum_cons]
      omega
    · split
      · simp only [List.map_cons, List.sum_cons]
        omega
      · simp only [List.map_cons, List.sum_cons, ih]
        omega

/-- As many as were counted. -/
theorem total_addAll (t : Tally) (names : List String) :
    (t.addAll names).total = t.total + names.length := by
  induction names generalizing t with
  | nil => rfl
  | cons name names ih =>
    have h := ih (t.add name)
    rw [total_add] at h
    rw [List.length_cons]
    show ((t.add name).addAll names).total = _
    omega

end Tally

/-! ## Statistics -/

theorem Opcode.family_eq_branch (op : Opcode) : op.family = "branch" ↔ op.isBranch = true := by
  cases op <;> simp [family, isBranch]

theorem Opcode.family_eq_call (op : Opcode) : op.family = "call" ↔ op = .call := by
  cases op <;> simp [family]

/-- The families of some instructions. -/
def families (rs : List Instruction) : List String := rs.map fun r => r.opcode.family

theorem count_branch_families (rs : List Instruction) :
    (families rs).count "branch" = rs.countP fun r => r.opcode.isBranch := by
  rw [families, List.count, List.countP_map]
  refine List.countP_congr fun r _ => ?_
  simp [Opcode.family_eq_branch]

theorem count_call_families (rs : List Instruction) :
    (families rs).count "call" = rs.countP fun r => r.opcode = .call := by
  rw [families, List.count, List.countP_map]
  refine List.countP_congr fun r _ => ?_
  simp [Opcode.family_eq_call]

namespace ModuleStatistics

theorem totalHalves_eq_sum (a : ModuleStatistics) :
    a.totalHalves = (a.functions.map FunctionStatistics.halves).sum := by
  rw [List.sum_eq_foldl, List.foldl_map]
  rfl

/-- The statistics after some functions were added, each with its instructions. -/
def recorded (fs : List (FunctionStatistics × List Instruction)) : ModuleStatistics :=
  fs.foldl (fun a f => a.add f.1 f.2) {}

/-- **What was recorded, in closed form.** -/
theorem recorded_eq (fs : List (FunctionStatistics × List Instruction)) :
    recorded fs =
      { instructionCount := (fs.map fun f => f.2.length).sum
        familyFrequency := Tally.addAll [] (fs.flatMap fun f => families f.2)
        unknownOpcodes := Tally.addAll [] (fs.flatMap fun f => unknownMnemonics f.2)
        functions := fs.map (·.1) } := by
  induction fs using List.reverseRecOn with
  | nil => rfl
  | append_singleton fs f ih =>
    have hsnoc : recorded (fs ++ [f]) = (recorded fs).add f.1 f.2 := by
      simp [recorded]
    rw [hsnoc, ih]
    simp [add, families, Tally.addAll_append]

end ModuleStatistics

namespace Decompilation

open ModuleStatistics

/-- **The statistics of some runs in closed form.** -/
theorem statisticsOf_eq (runs : List FunctionRun) :
    statisticsOf runs =
      { instructionCount := (runs.map fun f => f.body.instructions.length).sum
        familyFrequency := Tally.addAll [] (runs.flatMap fun f => families f.body.instructions)
        unknownOpcodes :=
          Tally.addAll [] (runs.flatMap fun f => unknownMnemonics f.body.instructions)
        functions := runs.map (·.statistics) } := by
  have hrecorded : statisticsOf runs =
      recorded (runs.map fun f => (f.statistics, f.body.instructions)) := by
    rw [statisticsOf, recorded, List.foldl_map]
  rw [hrecorded, recorded_eq]
  simp [List.flatMap_map, Function.comp_def]

/-- The complexity of some runs: two halves for each, two for each branch and one for each call. -/
theorem totalHalves_statisticsOf (runs : List FunctionRun) :
    (statisticsOf runs).totalHalves = 2 * runs.length +
      2 * (runs.flatMap fun f => families f.body.instructions).count "branch" +
      (runs.flatMap fun f => families f.body.instructions).count "call" := by
  rw [totalHalves_eq_sum, statisticsOf_eq]
  induction runs with
  | nil => rfl
  | cons f runs ih =>
    have hf : f.statistics.halves = 2 + 2 * (families f.body.instructions).count "branch" +
        (families f.body.instructions).count "call" := by
      rw [count_branch_families, count_call_families]
      rfl
    simp only [List.map_cons, List.sum_cons, List.flatMap_cons, List.count_append,
      List.length_cons] at ih ⊢
    omega

end Decompilation

/-! ## Runs -/

namespace Machine

theorem skipped_effect (m : Machine) (r : Instruction) :
    (m.effect r).skipped.toList = ModuleStatistics.unknownMnemonics [r] := by
  unfold effect ModuleStatistics.unknownMnemonics
  cases h : r.opcode
  case call =>
    dsimp only
    split
    · unfold callEffect
      dsimp only
      split <;> simp [h]
    · simp [h]
  case ret =>
    dsimp only
    unfold returnEffect
    split <;> simp [h]
  all_goals simp [h, readEffect, storeEffect, globalEffect]

/-- The machine skips the instructions with an unknown opcode, in order. -/
theorem skipped_foldl_step (m : Machine) (rs : List Instruction) :
    (rs.foldl step m).skipped.reverse =
      m.skipped.reverse ++ ModuleStatistics.unknownMnemonics rs := by
  induction rs generalizing m with
  | nil => exact (List.append_nil _).symm
  | cons r rs ih =>
    have hstep : (m.step r).skipped.reverse =
        m.skipped.reverse ++ ModuleStatistics.unknownMnemonics [r] := by
      rw [← skipped_effect]
      show ((m.effect r).skipped.toList ++ m.skipped).reverse = _
      cases (m.effect r).skipped <;> simp
    have hcons : ModuleStatistics.unknownMnemonics (r :: rs) =
        ModuleStatistics.unknownMnemonics [r] ++ ModuleStatistics.unknownMnemonics rs := by
      simp only [ModuleStatistics.unknownMnemonics, ← List.filterMap_append, List.singleton_append]
    rw [List.foldl_cons, ih, hstep, hcons, List.append_assoc]

end Machine

/-- **What is skipped** in the run over a body are its unknown opcodes, in order. -/
theorem unknownOpcodes_interpret (h : FunctionHeader) (b : Body) (options : MachineOptions) :
    (interpret h b options).unknownOpcodes = ModuleStatistics.unknownMnemonics b.instructions := by
  obtain ⟨t, declared, hd⟩ := Machine.foldl_declare_eq b.locals (Machine.start h options)
  show (b.instructions.foldl Machine.step
    (b.locals.foldl Machine.declare (Machine.start h options))).skipped.reverse = _
  rw [Machine.skipped_foldl_step, hd]
  rfl

/-- Two headers say the same but for the names of the parameters. -/
structure FunctionHeader.SameSignature (f g : FunctionHeader) : Prop where
  visibility : g.visibility = f.visibility
  name : g.name = f.name
  typeParameters : g.typeParameters = f.typeParameters
  parameterTypes : g.parameters.map (·.paramType) = f.parameters.map (·.paramType)
  returnType : g.returnType = f.returnType

/-- A run gives its function the header it was started with, under names for the parameters. -/
theorem sameSignature_interpret (h : FunctionHeader) (b : Body) (options : MachineOptions) :
    h.SameSignature (interpret h b options).function.toFunctionHeader := by
  have hheader : ((Machine.start h options).run b).header = h :=
    ((Machine.Reachable.start.foldl_declare b.locals).foldl_step b.instructions).header_eq
  have hresult : (interpret h b options).function.toFunctionHeader =
      { ((Machine.start h options).run b).header with
        parameters := ((Machine.start h options).run b).namedParameters } := rfl
  rw [hresult, Machine.namedParameters, hheader]
  exact ⟨rfl, rfl, rfl, List.ext_getElem (by simp) (by simp), rfl⟩

namespace FunctionRun

/-- What the run over a function of a listing comes to. -/
def interpretation (c : Config) (f : FunctionListing) : Interpretation :=
  interpret f.toFunctionHeader (Listing.body f.bodyLines) (machineOptions c)

/-- A function that is run has no more instructions than allowed, and is run on its body. -/
theorem of_ofListing {c : Config} {f : FunctionListing} {run : FunctionRun}
    (h : ofListing c f = .ok run) :
    (Listing.body f.bodyLines).instructions.length ≤ c.maxInstructionsPerFunction ∧
      run = ⟨f, Listing.body f.bodyLines, interpretation c f⟩ := by
  unfold ofListing at h
  dsimp only at h
  split at h
  · simp at h
  · next hle =>
    split at h
    · simp at h
    · split at h
      · exact ⟨le_of_not_gt hle, (Except.ok.inj h).symm⟩
      · simp at h

theorem warnings_eq_nil (run : FunctionRun) : run.warnings = [] ↔ run.result.isComplete = true := by
  unfold warnings Interpretation.isComplete
  by_cases hu : run.result.unresolvedOperands = 0 <;> by_cases hs : run.result.leftoverStack = 0 <;>
    simp [hu, hs, Nat.pos_iff_ne_zero]

end FunctionRun

/-! ## Decompilations -/

theorem forall₂_of_mapM_ok {α β ε : Type} {g : α → Except ε β} {xs : List α} {ys : List β}
    (h : xs.mapM g = .ok ys) : List.Forall₂ (fun x y => g x = .ok y) xs ys := by
  induction xs generalizing ys with
  | nil =>
    rw [← Except.ok.inj h]
    exact .nil
  | cons x xs ih =>
    rw [List.mapM_cons] at h
    cases hx : g x with
    | error e => simp [hx, bind, Except.bind] at h
    | ok y =>
      cases hxs : xs.mapM g with
      | error e => simp [hx, hxs, bind, Except.bind] at h
      | ok zs =>
        rw [hx, hxs] at h
        rw [← Except.ok.inj h]
        exact .cons hx (ih hxs)

namespace Decompilation

open FunctionRun

/-- The runs over some functions. -/
def runsOf (c : Config) (fs : List FunctionListing) : List FunctionRun :=
  fs.map fun f => ⟨f, Listing.body f.bodyLines, interpretation c f⟩

theorem of_ofText? {c : Config} {text : String} {d : Decompilation} (h : ofText? c text = .ok d) :
    (∀ f ∈ (Listing.read text).functions,
      (Listing.body f.bodyLines).instructions.length ≤ c.maxInstructionsPerFunction) ∧
    d.module = assemble (Listing.read text) (runsOf c (Listing.read text).functions) ∧
    d.warnings = (runsOf c (Listing.read text).functions).flatMap (·.warnings) ∧
    d.statistics = statisticsOf (runsOf c (Listing.read text).functions) := by
  unfold ofText? at h
  split at h
  · simp at h
  · dsimp only at h
    cases hruns : (Listing.read text).functions.mapM (FunctionRun.ofListing c) with
    | error e => simp [hruns, bind, Except.bind] at h
    | ok runs =>
      obtain ⟨hbounds, hall⟩ := (List.forall₂_and_left _ _).1
        ((forall₂_of_mapM_ok hruns).imp fun f run hrun => (of_ofListing hrun).imp_right Eq.symm)
      have hmap : runsOf c (Listing.read text).functions = runs := by
        rw [runsOf, ← List.forall₂_eq_eq_eq, List.forall₂_map_left_iff]
        exact hall
      rw [hruns] at h
      simp only [bind, Except.bind] at h
      split at h
      · rw [← Except.ok.inj h, hmap]
        exact ⟨hbounds, rfl, rfl, rfl⟩
      · simp at h

/-- What the numbers of a decompilation say of the functions of the listing: the module has these
functions, each with its signature and the body its interpretation gives; the statistics have them
by name, each with the number of its instructions, and add them up along every way of counting. -/
structure Accounts (c : Config) (fs : List FunctionListing) (d : Decompilation) : Prop where
  functions : List.Forall₂ (fun (f : FunctionListing) (g : PseudoFunction) =>
    g = (interpretation c f).function ∧ f.SameSignature g.toFunctionHeader) fs d.module.functions
  statistics : List.Forall₂ (fun (f : FunctionListing) (s : FunctionStatistics) =>
    s.name = f.name ∧ s.instructionCount = (Listing.body f.bodyLines).instructions.length ∧
      s.instructionCount ≤ c.maxInstructionsPerFunction) fs d.statistics.functions
  byFunction : d.statistics.instructionCount = (d.statistics.functions.map (·.instructionCount)).sum
  byFamily : d.statistics.instructionCount = d.statistics.familyFrequency.total
  skipped : d.statistics.unknownOpcodes.Counts
    (fs.flatMap fun f => (interpretation c f).unknownOpcodes)
  complexity : d.statistics.totalHalves = 2 * fs.length +
    2 * d.statistics.familyFrequency.count "branch" + d.statistics.familyFrequency.count "call"
  warnings : d.warnings = [] ↔ ∀ f ∈ fs, (interpretation c f).isComplete = true

/-- **The accounts agree.** No decompilation loses or miscounts a function. -/
theorem accounts_of_ok {c : Config} {text : String} {d : Decompilation}
    (h : ofText? c text = .ok d) :
    Accounts c (Listing.read text).functions d := by
  obtain ⟨hbounds, hmodule, hwarnings, hstatistics⟩ := of_ofText? h
  generalize (Listing.read text).functions = fs at hbounds hmodule hwarnings hstatistics ⊢
  have hfunctions : d.module.functions = fs.map fun f => (interpretation c f).function := by
    rw [hmodule]
    simp [assemble, runsOf]
  have hrows : d.statistics.functions = (runsOf c fs).map (·.statistics) := by
    rw [hstatistics, statisticsOf_eq]
  have hcount : d.statistics.instructionCount =
      ((runsOf c fs).map fun f => f.body.instructions.length).sum := by
    rw [hstatistics, statisticsOf_eq]
  have hfamilies : d.statistics.familyFrequency.Counts
      ((runsOf c fs).flatMap fun f => families f.body.instructions) := by
    rw [hstatistics, statisticsOf_eq]
    exact Tally.counts_addAll _
  constructor
  case functions =>
    rw [hfunctions, List.forall₂_map_right_iff]
    exact List.forall₂_same.2 fun f _ => ⟨rfl, sameSignature_interpret f.toFunctionHeader _ _⟩
  case statistics =>
    rw [hrows, runsOf, List.map_map, List.forall₂_map_right_iff]
    exact List.forall₂_same.2 fun f hf => ⟨rfl, rfl, hbounds f hf⟩
  case byFunction =>
    rw [hcount, hrows, List.map_map]
    rfl
  case byFamily =>
    rw [hcount, hstatistics, statisticsOf_eq, Tally.total_addAll]
    simp [families, List.length_flatMap, Tally.total]
  case skipped =>
    have hskipped : (fs.flatMap fun f => (interpretation c f).unknownOpcodes) =
        (runsOf c fs).flatMap fun f => ModuleStatistics.unknownMnemonics f.body.instructions := by
      simp only [runsOf, List.flatMap_map, interpretation, unknownOpcodes_interpret]
    rw [hskipped, hstatistics, statisticsOf_eq]
    exact Tally.counts_addAll _
  case complexity =>
    rw [hfamilies.count_eq, hfamilies.count_eq, hstatistics, totalHalves_statisticsOf]
    simp [runsOf]
  case warnings =>
    rw [hwarnings, List.flatMap_eq_nil_iff]
    simp only [runsOf, List.forall_mem_map, warnings_eq_nil]

/-- A listing with two functions, with calls, branches and an opcode that is not known. -/
def paymentText : String :=
  "module 0xa::payment \x7b\npublic fun pay(Arg0: u64): u64 \x7b\n0: MoveLoc[0](Arg0: u64)\n1: Call log(u64)\n" ++
    "2: Frobnicate\n3: LdU64(7)\n4: Ret\n\x7d\nentry fun spin() \x7b\n0: Branch(0)\n1: Frobnicate\n\x7d\n\x7d\n"

theorem accounts_payment : ∃ d, ofText? {} paymentText = .ok d ∧
    Accounts {} (Listing.read paymentText).functions d ∧ d.statistics.functions.length = 2 ∧
    d.statistics.unknownOpcodes = [("Frobnicate", 2)] := by
  have hrun : ((ofText? {} paymentText).toOption.any fun d =>
      decide (d.statistics.functions.length = 2 ∧
        d.statistics.unknownOpcodes = [("Frobnicate", 2)])) = true := by
    decide +kernel
  cases hd : ofText? {} paymentText with
  | error e =>
    rw [hd] at hrun
    exact absurd hrun Bool.false_ne_true
  | ok d =>
    rw [hd] at hrun
    exact ⟨d, rfl, accounts_of_ok hd, of_decide_eq_true hrun⟩

end Decompilation

end PseudoMove
