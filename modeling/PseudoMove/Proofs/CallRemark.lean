import PseudoMove.Proofs.BracketedList
import PseudoMove.Proofs.StackEffect
import Mathlib

/-!
# Call remarks that are read back

A call remark is the path of a function, its type arguments in angle brackets if it has any, the
types of its parameters in parentheses, and its return type behind a colon if it has one
(`Callee.Spelled`).  Types may nest in brackets of all kinds and hold commas there.  Each list is
found by the partner of its first bracket, so nothing in an item is taken for the end of the list
(`readParameters?_spelled`), and the remark is read back into its four parts (`read?_spelled`).
-/

namespace PseudoMove

open Text PseudoMove.Bracket Listing

namespace Callee

/-- A character that may stand in a path: no blank, and none that begins a list. -/
def isPathPart (c : Char) : Bool := !isBlank c && c != '<' && c != '('

/-- What a remark can tell of a function: a path that is one word and ends before the brackets,
types that are items of a list, and a return type without blanks at its ends. -/
structure Legible (f : Callee) : Prop where
  path_ne : f.path ≠ ""
  path : f.path.toList.all isPathPart = true
  typeArguments : ∀ t ∈ f.typeArguments, IsTrimmed t.toList ∧ IsItem t.toList
  parameterTypes : ∀ t ∈ f.parameterTypes, IsTrimmed t.toList ∧ IsItem t.toList
  returnType : trim f.returnType.toList = f.returnType.toList

instance (f : Callee) : Decidable f.Legible :=
  decidable_of_iff (_ ∧ _ ∧ _ ∧ _ ∧ _)
    ⟨fun ⟨h1, h2, h3, h4, h5⟩ => ⟨h1, h2, h3, h4, h5⟩, fun ⟨h1, h2, h3, h4, h5⟩ =>
      ⟨h1, h2, h3, h4, h5⟩⟩

/-- A text spells a list of types. -/
def SpellsTypes (ts : List String) (s : List Char) : Prop := CommaList (ts.map String.toList) s

/-- A text spells the type arguments behind a path: in angle brackets, which are left
out if there are none. -/
inductive SpellsArguments : List String → List Char → Prop
  | none : SpellsArguments [] []
  | angled {ts : List String} {s : List Char} (hne : ts ≠ []) (h : SpellsTypes ts s) :
      SpellsArguments ts ('<' :: (s ++ ['>']))

/-- A text spells the return type behind the parameters: with a colon and any blanks in
front, or not at all. -/
inductive SpellsReturn : String → List Char → Prop
  | none : SpellsReturn "" []
  | typed {ret : String} {b : List Char} (hne : ret ≠ "") (hb : b.all isBlank = true) :
      SpellsReturn ret (':' :: (b ++ ret.toList))

/-- A text spells a function as call remarks do. -/
inductive Spelled (f : Callee) : List Char → Prop
  | mk {args params ret : List Char} (hargs : SpellsArguments f.typeArguments args)
      (hparams : SpellsTypes f.parameterTypes params) (hret : SpellsReturn f.returnType ret) :
      Spelled f (f.path.toList ++ (args ++ '(' :: (params ++ ')' :: ret)))

/-! ## Types and return types -/

section

variable {ts : List String} {s : List Char} (hts : ∀ t ∈ ts, IsTrimmed t.toList ∧ IsItem t.toList)
include hts

theorem SpellsTypes.typeList (h : SpellsTypes ts s) : typeList s = ts := by
  have hitems : ∀ x ∈ ts.map String.toList, IsTrimmed x ∧ IsItem x := by
    intro x hx
    obtain ⟨t, ht, rfl⟩ := List.mem_map.1 hx
    exact hts t ht
  rw [Callee.typeList, CommaList.splitOutside h hitems, List.map_map]
  simp [Function.comp_def]

theorem SpellsTypes.enclosed? (h : SpellsTypes ts s) {c : Char} (ho : isOpening c = false)
    (hc : isClosing c = true) (rest : List Char) : enclosed? (s ++ c :: rest) = some (s, rest) := by
  refine enclosed?_of_balanced (CommaList.isBalanced h fun x hx => ?_) ho hc rest
  obtain ⟨t, ht, rfl⟩ := List.mem_map.1 hx
  exact (hts t ht).2

end

section

variable {ret : String} {s : List Char} (h : SpellsReturn ret s)
  (hret : trim ret.toList = ret.toList)
include h hret

theorem SpellsReturn.read :
    (match trim s with | ':' :: r => String.ofList (trim r) | _ => "") = ret := by
  cases h with
  | none => rfl
  | @typed _ b hne hb =>
    have hend := (isTrimmed_toList hne hret).trimEnd_append b
    rw [trim_cons (by decide), hend]
    show String.ofList (trim (b ++ ret.toList)) = ret
    rw [trim_blanks hb, hret, String.ofList_toList]

/-- A remark has no blanks at its ends. -/
theorem SpellsReturn.trim_append {path : List Char} (hpath : IsTrimmed path) (middle : List Char) :
    trim (path ++ (middle ++ ')' :: s)) = path ++ (middle ++ ')' :: s) := by
  cases h with
  | none =>
    have hclose : IsTrimmed [')'] := by decide
    have := (hpath.append hclose middle).2
    rwa [List.append_assoc] at this
  | @typed _ b hne hb =>
    have := (hpath.append (isTrimmed_toList hne hret) (middle ++ ')' :: ':' :: b)).2
    simpa using this

end

/-! ## The remark -/

section

variable {ts : List String} {args : List Char} (h : SpellsArguments ts args)
include h

/-- The path ends before the type arguments, or before the parameters. -/
theorem SpellsArguments.stops (rest : List Char) :
    Stops (fun c => decide (c ≠ '<') && decide (c ≠ '(')) (args ++ '(' :: rest) := by
  cases h with
  | none => exact stops_cons (by decide)
  | angled => exact stops_cons (by decide)

theorem SpellsArguments.read (hts : ∀ t ∈ ts, IsTrimmed t.toList ∧ IsItem t.toList)
    (path rest : List Char) :
    (match args ++ '(' :: rest with
      | '<' :: r =>
        (Bracket.enclosed? r).bind fun p => readParameters? path (Callee.typeList p.1) p.2
      | rest => readParameters? path [] rest) = readParameters? path ts ('(' :: rest) := by
  cases h with
  | none => rfl
  | @angled _ s hne hs =>
    have hclose := hs.enclosed? hts (c := '>') rfl rfl ('(' :: rest)
    have hshape : '<' :: (s ++ ['>']) ++ '(' :: rest = '<' :: (s ++ '>' :: '(' :: rest) := by simp
    rw [hshape]
    show ((Bracket.enclosed? (s ++ '>' :: '(' :: rest)).bind fun p => _) = _
    rw [hclose, Option.bind_some, hs.typeList hts]

end

variable {f : Callee} {args params ret : List Char}

theorem readParameters?_spelled (hf : f.Legible) (hparams : SpellsTypes f.parameterTypes params)
    (hret : SpellsReturn f.returnType ret) :
    readParameters? f.path.toList f.typeArguments ('(' :: (params ++ ')' :: ret)) = some f := by
  have hstart : trimStart ('(' :: (params ++ ')' :: ret)) = '(' :: (params ++ ')' :: ret) :=
    trimStart_eq_self_iff.2 (stops_cons (by decide))
  unfold readParameters?
  rw [hstart]
  show (Bracket.enclosed? (params ++ ')' :: ret)).map _ = _
  rw [hparams.enclosed? hf.parameterTypes rfl rfl, Option.map_some,
    hparams.typeList hf.parameterTypes, String.ofList_toList]
  exact congrArg (fun ty => some { f with returnType := ty }) (hret.read hf.returnType)

/-- **A remark is read back into its four parts.** -/
theorem read?_of_spelled (hf : f.Legible) {text : List Char} (h : f.Spelled text) :
    read? text = some f := by
  obtain @⟨args, params, ret, hargs, hparams, hret⟩ := h
  have hparts : ∀ c ∈ f.path.toList, isBlank c = false ∧ c ≠ '<' ∧ c ≠ '(' := by
    intro c hc
    simpa [isPathPart, and_assoc] using List.all_eq_true.1 hf.path c hc
  have hblank : ∀ c ∈ f.path.toList, isBlank c = false := fun c hc => (hparts c hc).1
  have hpath : IsTrimmed f.path.toList := isTrimmed_toList hf.path_ne (trim_of_forall hblank)
  have hclass : ∀ c ∈ f.path.toList, (decide (c ≠ '<') && decide (c ≠ '(')) = true := by
    intro c hc
    simpa using (hparts c hc).2
  have hword : ¬(f.path.toList = [] ∨ f.path.toList.any isBlank = true) := by
    rintro (hnil | hany)
    · exact hpath.1 hnil
    · obtain ⟨c, hc, hblankc⟩ := List.any_eq_true.1 hany
      exact absurd ((hblank c hc).symm.trans hblankc) (by decide)
  obtain ⟨htake, hdrop⟩ := takeWhile_append hclass (hargs.stops (params ++ ')' :: ret))
  have htrim := hret.trim_append hf.returnType hpath (args ++ '(' :: params)
  rw [List.append_assoc, List.cons_append] at htrim
  unfold read?
  rw [htrim]
  dsimp only
  rw [htake, hdrop, hpath.2, if_neg hword]
  exact (hargs.read hf.typeArguments _ _).trans (readParameters?_spelled hf hparams hret)

/-- **Call remarks keep their four parts, and calls the number of their arguments.** Any remark that
spells a function is read as this function, and a call with this remark takes as many fragments from
the stack as the function has parameters. -/
theorem read?_spelled (hf : f.Legible) {text : List Char} (h : f.Spelled text) :
    read? text = some f ∧
      ∀ (m : Machine) (r : Instruction), r.opcode = .call → r.remark = some (String.ofList text) →
        (m.effect r).pops = f.parameterTypes.length := by
  have hread := read?_of_spelled hf h
  refine ⟨hread, fun m r hop hremark => ?_⟩
  have hcallee : callee? r = some f := by
    rw [callee?, hremark, Option.bind_some, String.toList_ofList, hread]
  rw [(m.counts_effect r).pops, stackEffect, hop]
  dsimp only
  rw [hcallee]
  rfl

/-- A function whose types nest in each other, with commas at every depth. -/
def swap : Callee where
  path := "pool::swap"
  typeArguments := ["u8", "Pair<A, (B, C)>"]
  parameterTypes := ["&mut Pool<A, B>", "(u64, [u8])", "vector<u8>"]
  returnType := "(Coin<A>, u64)"

/-- Its remark, with and without spaces behind the commas. -/
def swapRemark : String :=
  "pool::swap<u8,Pair<A, (B, C)>>(&mut Pool<A, B>, (u64, [u8]),vector<u8>): (Coin<A>, u64)"

theorem read?_spelled_swap :
    swap.Legible ∧ swap.Spelled swapRemark.toList ∧ read? swapRemark.toList = some swap ∧
      ∀ (m : Machine) (r : Instruction), r.opcode = .call →
        r.remark = some (String.ofList swapRemark.toList) →
          (m.effect r).pops = 3 := by
  have hlegible : swap.Legible := by decide +kernel
  have htypes : SpellsTypes swap.typeArguments "u8,Pair<A, (B, C)>".toList :=
    .cons "u8".toList (by decide : [].all isBlank = true) (.single "Pair<A, (B, C)>".toList)
  have hparams : SpellsTypes swap.parameterTypes "&mut Pool<A, B>, (u64, [u8]),vector<u8>".toList :=
    .cons "&mut Pool<A, B>".toList (by decide : [' '].all isBlank = true)
      (.cons "(u64, [u8])".toList (by decide : [].all isBlank = true) (.single "vector<u8>".toList))
  have hret : SpellsReturn swap.returnType ": (Coin<A>, u64)".toList :=
    .typed (by decide) (by decide : [' '].all isBlank = true)
  have hspelled : swap.Spelled swapRemark.toList := .mk (.angled (by decide) htypes) hparams hret
  exact ⟨hlegible, hspelled, read?_spelled hlegible hspelled⟩

end Callee

end PseudoMove
