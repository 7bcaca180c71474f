import PseudoMove.Proofs.BracketedList
import PseudoMove.Proofs.LineTexts
import PseudoMove.Proofs.NameTable
import PseudoMove.Proofs.StackEffect

/-!
# Placeholders shown and placeholders counted

An operand that is missing is written as a question mark.  Where neither a header nor a line has a
question mark, it can come from nowhere else: not from a name, since names are made of their types,
small letters and underscores, and not from the fixed texts.  So a text is whole (`IsWhole`) exactly
when it shows no placeholder.

* `isWhole_nameFor` — what has no question mark makes a name without one;
* `Machine.writesWhole_effect` — an instruction to which nothing is missing keeps all
  texts whole, branches apart;
* `Machine.shows_step`, `Machine.shows_foldl_step` — a step and a run that count nothing as missing;
* `Machine.placeholder_shown_iff` — what a function shows although it counts nothing: the target of
  a branch, and that alone, is written as a placeholder and not counted.
-/

namespace PseudoMove

open Text Fragment Naming TypeText Remark Identifier PseudoMove.Bracket

/-- The text shows no placeholder. -/
def IsWhole (s : String) : Prop := '?' ∉ s.toList

instance (s : String) : Decidable (IsWhole s) := inferInstanceAs (Decidable ('?' ∉ s.toList))

/-! ## Texts put together -/

@[simp] theorem isWhole_append {a b : String} : IsWhole (a ++ b) ↔ IsWhole a ∧ IsWhole b := by
  simp [IsWhole]

@[simp] theorem isWhole_ofList {s : List Char} : IsWhole (String.ofList s) ↔ '?' ∉ s := by
  simp [IsWhole]

theorem not_isWhole_placeholder : ¬ IsWhole placeholder := by decide

theorem IsWhole.of_isInfix {s : String} {t : List Char} (hs : IsWhole s) (h : t <:+: s.toList) :
    '?' ∉ t :=
  fun ht => hs (h.mem ht)

@[simp] theorem isWhole_repr (n : Nat) : IsWhole n.repr := by
  unfold IsWhole
  rw [Nat.toList_repr]
  intro h
  exact absurd (isDigit_of_mem_toDigits h) (by decide)

theorem isWhole_intercalate {sep : String} (hsep : IsWhole sep) {fs : List String}
    (h : ∀ f ∈ fs, IsWhole f) :
    IsWhole (sep.intercalate fs) := by
  have hne : ∀ {s : String}, IsWhole s → ∀ c ∈ s.toList, c ≠ '?' := fun hs c hc e => hs (e ▸ hc)
  unfold IsWhole
  rw [String.toList_intercalate]
  intro hmem
  refine forall_mem_intercalate (hne hsep) (fun t ht => ?_) '?' hmem rfl
  obtain ⟨f, hf, rfl⟩ := List.mem_map.1 ht
  exact hne (h f hf)

theorem isWhole_commaList {fs : List String} (h : ∀ f ∈ fs, IsWhole f) : IsWhole (commaList fs) :=
  isWhole_intercalate (by decide) h

theorem isWhole_unborrowed {f : String} (hf : IsWhole f) : IsWhole (unborrowed f) := by
  unfold unborrowed
  split
  · next r hr => exact isWhole_ofList.2 (hf.of_isInfix (isSuffix_of_afterPrefix? hr).isInfix)
  · split
    · next r hr => exact isWhole_ofList.2 (hf.of_isInfix (hr ▸ (List.suffix_cons '&' r).isInfix))
    · exact hf

theorem isWhole_dereferenced {f : String} (hf : IsWhole f) : IsWhole (dereferenced f) := by
  unfold dereferenced
  split
  · exact isWhole_unborrowed hf
  · simp +decide [hf]

theorem isWhole_freeze {f : String} (hf : IsWhole f) : IsWhole (freeze f) := by
  unfold freeze
  split
  · next r hr =>
    have := hf.of_isInfix (isSuffix_of_afterPrefix? hr).isInfix
    simp +decide [this]
  · exact hf

theorem isWhole_inParentheses {f : String} (hf : IsWhole f) : IsWhole (inParentheses f) := by
  unfold inParentheses
  split
  · exact hf
  · simp +decide [hf]

theorem isWhole_negated {f : String} (hf : IsWhole f) : IsWhole (negated f) := by
  have := isWhole_inParentheses hf
  unfold negated
  split <;> simp +decide [hf, this]

/-! ## Names -/

theorem isWhole_snake {base : List Char} (h : '?' ∉ base) : IsWhole (snake base) := by
  intro hmem
  rcases mem_snake hmem with e | hle | ⟨hmem, -⟩
  · exact absurd e (by decide)
  · exact absurd hle (by decide)
  · exact h hmem

theorem isWhole_sanitize (s : List Char) : IsWhole (String.ofList (sanitize s)) := by
  rw [isWhole_ofList]
  intro h
  exact absurd (isPart_of_mem_sanitize h) (by decide)

theorem isWhole_coinName {base : List Char} {args : List (List Char)} (hb : '?' ∉ base)
    (ha : ∀ a ∈ args, '?' ∉ a) : IsWhole (coinName base args) := by
  have hbase := isWhole_snake hb
  unfold coinName
  split
  · exact hbase
  · next arg rest =>
    have hheld := isWhole_snake fun h => ha arg List.mem_cons_self ((isInfix_baseName arg).mem h)
    dsimp only
    split
    · exact hbase
    · simp +decide [hheld, hbase]

theorem isWhole_plural {n : String} (hn : IsWhole n) : IsWhole (plural n) := by
  unfold plural
  split <;> simp +decide [hn]

theorem isWhole_plainName {ty : List Char} (h : '?' ∉ ty) : IsWhole (plainName ty) := by
  have hbase : ∀ {ty : List Char}, '?' ∉ ty → '?' ∉ baseName ty :=
    fun h hmem => h ((isInfix_baseName _).mem hmem)
  have hargs : ∀ {ty : List Char}, '?' ∉ ty → ∀ a ∈ arguments ty, '?' ∉ a :=
    fun h a ha hmem => h ((isInfix_of_mem_arguments ha).mem hmem)
  fun_induction plainName ty with
  | case1 ty base hc => exact isWhole_coinName (hbase h) (hargs h)
  | case2 => decide
  | case3 => decide
  | case4 ty base hc hv elem rest he hu ih =>
    exact isWhole_plural (ih (hargs h elem (he ▸ List.mem_cons_self)))
  | case5 ty base hc hv name hn =>
    have hall : ∀ p ∈ wellKnown, IsWhole p.2 := by decide
    obtain ⟨l₁, l₂, he, -⟩ := List.lookup_eq_some_iff.1 hn
    exact hall (String.ofList base, name) (by rw [he]; simp)
  | case6 =>
    unfold ordinaryName
    split
    · decide
    · exact isWhole_sanitize _

/-- **A type without a question mark makes a name without one**, whatever the function implies. -/
theorem isWhole_nameFor {ty : List Char} (h : '?' ∉ ty) (ctx : NameContext) :
    IsWhole (nameFor ty ctx) := by
  have hname : IsWhole ((impliedName ty ctx).getD (plainName ty)) := by
    cases hi : impliedName ty ctx with
    | none => exact isWhole_plainName h
    | some name =>
      have hall : ∀ n ∈ impliedNames, IsWhole n := by decide
      exact hall name (mem_impliedNames hi)
  unfold nameFor escapeReserved
  split <;> simp +decide [hname]

theorem isWhole_parameterBase (h : FunctionHeader) (i : Nat) {p : Parameter}
    (hp : IsWhole p.paramType) :
    IsWhole (Machine.parameterBase h i p) := by
  unfold Machine.parameterBase
  dsimp only
  split
  · exact isWhole_nameFor hp _
  · exact isWhole_sanitize _

theorem isWhole_localBase (slot : Slot) {ty : Option (List Char)} (h : ∀ t ∈ ty, '?' ∉ t) :
    IsWhole (Machine.localBase slot ty) := by
  cases ty with
  | some t => exact isWhole_nameFor (h t rfl) {}
  | none => cases slot <;> simp +decide [Machine.localBase]

/-! ## The table of names -/

theorem isWhole_fresh (a : NameSupply) {base : String} (hb : IsWhole base) :
    IsWhole (a.fresh base).1 := by
  have hbase : IsWhole (NameSupply.baseOf base) := by
    unfold NameSupply.baseOf
    split
    · decide
    · exact hb
  show IsWhole (NameSupply.candidate _ _)
  unfold NameSupply.candidate
  split
  · exact hbase
  · simp +decide [hbase]

namespace LocalNames

variable {t : LocalNames}

/-- All names of slots are whole. -/
def AllWhole (t : LocalNames) : Prop := ∀ s n, t.get? s = some n → IsWhole n

theorem AllWhole.bind (ht : t.AllWhole) (slot : Slot) {base : String} (hb : IsWhole base) :
    IsWhole (t.bind slot base).1 ∧ (t.bind slot base).2.AllWhole := by
  have hname : IsWhole (t.bind slot base).1 := by
    cases hs : t.get? slot with
    | some n =>
      rw [bind_of_get? hs]
      exact ht slot n hs
    | none =>
      rw [bind_of_get?_none hs]
      exact isWhole_fresh t.supply hb
  refine ⟨hname, fun s n hs => ?_⟩
  rw [get?_bind] at hs
  split at hs
  · rwa [← Option.some.inj hs]
  · exact ht s n hs

theorem AllWhole.temporaries (ht : t.AllWhole) (base : String) (n : Nat) :
    (t.temporaries base n).2.AllWhole := by
  intro s name h
  rw [get?_temporaries] at h
  exact ht s name h

theorem isWhole_of_mem_temporaries {base : String} (hb : IsWhole base) {n : Nat} {name : String}
    (h : name ∈ (t.temporaries base n).1) : IsWhole name := by
  induction n generalizing t with
  | zero => simp [LocalNames.temporaries] at h
  | succ n ih =>
    rcases List.mem_cons.1 h with rfl | h
    · exact isWhole_fresh t.supply hb
    · exact ih h

end LocalNames

namespace Machine

/-! ## What an instruction reads off its line -/

section Line

variable {r : Instruction} (hr : ∀ t ∈ r.texts, IsWhole t)
include hr

theorem isWhole_of_part {s : String} (h : ∃ t ∈ r.texts, s.toList <:+: t.toList) : IsWhole s := by
  obtain ⟨t, ht, hpart⟩ := h
  exact (hr t ht).of_isInfix hpart

theorem isWhole_constant? {a : String} (h : constant? r = some a) : IsWhole a := by
  rcases isInfix_of_constant? h with h | ⟨i, -, rfl⟩
  · exact isWhole_of_part hr h
  · simp +decide

theorem isWhole_render {f : Callee} (h : callee? r = some f) (keep : Bool) :
    IsWhole (f.render keep) := by
  obtain ⟨a, ha, hread⟩ := Option.bind_eq_some_iff.1 h
  obtain ⟨hpath, htypes⟩ := isInfix_of_read? hread
  have hrem := hr a (mem_texts_of_remark ha)
  have hshort : IsWhole (String.ofList (shortPath f.path.toList)) := by
    rw [isWhole_ofList]
    intro hmem
    refine forall_mem_intercalate (p := (· ≠ '?')) (by simp) (fun s hs c hc => ?_) '?' hmem rfl
    obtain ⟨q, hq, rfl⟩ := List.mem_map.1 (List.mem_of_mem_drop hs)
    rintro rfl
    exact hrem.of_isInfix ((isInfix_trim q).trans ((isInfix_of_mem_segments hq).trans hpath)) hc
  have hargs : IsWhole (", ".intercalate f.typeArguments) :=
    isWhole_intercalate (by decide) fun t ht => hrem.of_isInfix (htypes t ht)
  unfold Callee.render
  dsimp only
  split
  · simp +decide [hshort, hargs]
  · exact hshort

theorem isWhole_slotType {m : Machine} {slot : Slot} {ty : Option (List Char)}
    (h : m.slotOf? r = some (slot, ty)) :
    ∀ t ∈ ty, '?' ∉ t := by
  intro t ht
  obtain ⟨a, ha, hpart⟩ := isInfix_of_slotOf? h t ht
  exact (hr a ha).of_isInfix hpart

end Line

theorem isWhole_orPlaceholder {x : Option String} (h : missing x = 0)
    (hx : ∀ s, x = some s → IsWhole s) :
    IsWhole (orPlaceholder x) := by
  cases x with
  | none => simp [missing] at h
  | some s => exact hx s rfl

/-! ## Effects -/

/-- Nothing that the machine holds shows a placeholder. -/
structure ShowsNone (m : Machine) : Prop where
  stack : ∀ f ∈ m.stack, IsWhole f
  locals : m.locals.AllWhole

end Machine

/-- An effect writes and keeps whole texts only. -/
structure Effect.WritesWhole (e : Effect) : Prop where
  pushes : ∀ f ∈ e.pushes, IsWhole f
  statement : ∀ s ∈ e.statement, IsWhole s
  locals : e.locals.AllWhole

namespace Machine

namespace ShowsNone

variable {m : Machine} {r : Instruction} (hm : m.ShowsNone) (hr : ∀ t ∈ r.texts, IsWhole t)
include hm

theorem operand {i : Nat} (hi : i < m.stack.length) : IsWhole (m.operand i) := by
  unfold Machine.operand
  rw [List.getElem?_eq_getElem hi]
  exact hm.stack _ (List.getElem_mem hi)

theorem operands {n : Nat} (hn : n ≤ m.stack.length) : ∀ f ∈ m.operands n, IsWhole f := by
  intro f hf
  have hnone : n - m.stack.length = 0 := by omega
  simp only [Machine.operands, hnone, Nat.zero_le, if_true, List.replicate_zero, List.nil_append,
    List.mem_reverse] at hf
  exact hm.stack f (List.mem_of_mem_take hf)

include hr

/-- The local of an instruction is shown by its name, if the instruction says which one it is. -/
theorem localUse : (m.localUse r).locals.AllWhole ∧
    (missing (m.localUse r).slot = 0 → IsWhole (m.localUse r).name) := by
  unfold Machine.localUse
  split
  · exact ⟨hm.locals, by simp [missing]⟩
  · next slot ty h =>
    obtain ⟨hname, hall⟩ := hm.locals.bind slot (isWhole_localBase slot (isWhole_slotType hr h))
    exact ⟨hall, fun _ => hname⟩

theorem readEffect {borrow : String} (hb : IsWhole borrow)
    (hmiss : (m.readEffect r borrow).misses = 0) :
    (m.readEffect r borrow).WritesWhole where
  pushes := by
    have := (hm.localUse hr).2 hmiss
    simp [Machine.readEffect, hb, this]
  statement := by simp [Machine.readEffect]
  locals := (hm.localUse hr).1

theorem storeEffect (hpops : 1 ≤ m.stack.length) (hmiss : (m.storeEffect r).misses = 0) :
    (m.storeEffect r).WritesWhole where
  pushes := by simp [Machine.storeEffect]
  statement := by
    have hname := (hm.localUse hr).2 hmiss
    have htop := hm.operand hpops
    rintro s hs
    obtain rfl := Option.some.inj hs
    split <;> simp +decide [hname, htop]
  locals := (hm.localUse hr).1

theorem globalEffect {builtin : String} (hb : IsWhole builtin) (hpops : 1 ≤ m.stack.length)
    (hmiss : (m.globalEffect r builtin).misses = 0) : (m.globalEffect r builtin).WritesWhole where
  pushes := by
    have hname : IsWhole (orPlaceholder (structOf? r)) :=
      isWhole_orPlaceholder hmiss fun _ h => isWhole_of_part hr (isInfix_of_structOf? h)
    have htop := hm.operand hpops
    simp +decide [Machine.globalEffect, hb, hname, htop]
  statement := by simp [Machine.globalEffect]
  locals := hm.locals

theorem callEffect {f : Callee} (hf : callee? r = some f) (hpops : f.arity ≤ m.stack.length) :
    (m.callEffect f).WritesWhole := by
  have hrender := isWhole_render hr hf m.options.keepTypeArguments
  have hargs := isWhole_commaList (hm.operands hpops)
  have hnames : ∀ n, ∀ name ∈ (m.locals.temporaries "result" n).1, IsWhole name :=
    fun n name => LocalNames.isWhole_of_mem_temporaries (by decide)
  unfold Machine.callEffect
  dsimp only
  split
  · exact ⟨by simp, by simp +decide [hrender, hargs], hm.locals⟩
  · exact ⟨by simp +decide [hrender, hargs], by simp, hm.locals⟩
  · refine ⟨hnames _, ?_, hm.locals.temporaries "result" _⟩
    simp +decide [hrender, hargs, isWhole_commaList (hnames f.resultCount)]

omit hr in
theorem returnEffect (hpops : m.returnEffect.pops ≤ m.stack.length) :
    m.returnEffect.WritesWhole := by
  unfold Machine.returnEffect at hpops ⊢
  split at hpops
  · exact ⟨by simp, by simp +decide, hm.locals⟩
  · have htop := hm.operand hpops
    exact ⟨by simp, by simp +decide [htop], hm.locals⟩
  · have hall := isWhole_commaList (hm.operands hpops)
    exact ⟨by simp, by simp +decide [hall], hm.locals⟩

end ShowsNone

/-- Whether an instruction is a branch that does not say where to. -/
def lacksTarget (r : Instruction) : Bool := r.opcode.isBranch && r.argument.isNone

theorem isWhole_branchComment {m : Machine} {text : String} (htext : IsWhole text) :
    ∀ s ∈ m.branchComment text, IsWhole s := by
  intro s hs
  unfold branchComment at hs
  split at hs
  · obtain rfl := Option.some.inj hs
    simp +decide [htext]
  · simp at hs

/-- A branch that says where to names its target. -/
theorem isWhole_targetOf {r : Instruction} (hr : ∀ t ∈ r.texts, IsWhole t)
    (hb : r.opcode.isBranch = true) (htarget : lacksTarget r = false) : IsWhole (targetOf r) := by
  refine isWhole_orPlaceholder ?_ fun _ h => isWhole_of_part hr (isInfix_of_argument h)
  cases ha : r.argument <;> simp_all [lacksTarget, missing]

/-- **An instruction to which nothing is missing writes no placeholder**, unless it is a
branch without a target. -/
theorem writesWhole_effect {m : Machine} (hm : m.ShowsNone)
    {r : Instruction} (hr : ∀ t ∈ r.texts, IsWhole t)
    (htarget : lacksTarget r = false) (hpops : (m.effect r).pops ≤ m.stack.length)
    (hmiss : (m.effect r).misses = 0) : (m.effect r).WritesWhole := by
  have hstruct : missing (structOf? r) = 0 → IsWhole (orPlaceholder (structOf? r)) :=
    fun h => isWhole_orPlaceholder h fun _ h => isWhole_of_part hr (isInfix_of_structOf? h)
  have hfield : missing (fieldOf? r) = 0 → IsWhole (orPlaceholder (fieldOf? r)) :=
    fun h => isWhole_orPlaceholder h fun _ h => isWhole_of_part hr (isInfix_of_fieldOf? h)
  cases h : r.opcode
  case call =>
    cases hc : callee? r with
    | some f =>
      rw [m.effect_call h hc] at hpops ⊢
      rw [(m.counts_callEffect f).pops] at hpops
      exact hm.callEffect hr hc hpops
    | none =>
      rw [m.effect_unresolvedCall h hc] at hmiss
      simp at hmiss
  all_goals rw [effect, h] at hpops hmiss ⊢
  all_goals dsimp only at hpops hmiss ⊢
  case copyLoc | moveLoc => exact hm.readEffect hr (by decide) hmiss
  case immBorrowLoc | mutBorrowLoc => exact hm.readEffect hr (by decide) hmiss
  case stLoc => exact hm.storeEffect hr hpops hmiss
  case ret => exact hm.returnEffect hpops
  case existsGlobal | moveFrom | immBorrowGlobal | mutBorrowGlobal =>
    exact hm.globalEffect hr (by decide) hpops hmiss
  -- nothing is taken
  case nop | unknown => exact ⟨by simp, by simp, hm.locals⟩
  case ldTrue | ldFalse => exact ⟨by simp +decide, by simp, hm.locals⟩
  case ldInt =>
    have := isWhole_orPlaceholder hmiss fun _ h => isWhole_of_part hr (isInfix_of_argument h)
    exact ⟨by simpa using this, by simp, hm.locals⟩
  case ldConst =>
    have := isWhole_orPlaceholder hmiss fun _ => isWhole_constant? hr
    exact ⟨by simpa using this, by simp, hm.locals⟩
  case pack => exact ⟨by simp +decide [hstruct hmiss], by simp, hm.locals⟩
  case branch =>
    have hgoto := isWhole_targetOf hr (by rw [h]; rfl) htarget
    exact ⟨by simp, isWhole_branchComment (by simp +decide [hgoto]), hm.locals⟩
  -- any number of fragments
  case vecPack =>
    have := isWhole_commaList (hm.operands hpops)
    exact ⟨by simp +decide [this], by simp, hm.locals⟩
  -- one fragment
  case unpack =>
    have htop := hm.operand hpops
    exact ⟨by simp, by simp +decide [htop, hstruct hmiss], hm.locals⟩
  case freezeRef | readRef | not =>
    have htop := hm.operand hpops
    have := isWhole_freeze htop
    have := isWhole_dereferenced htop
    have := isWhole_negated htop
    exact ⟨by simpa, by simp, hm.locals⟩
  case pop =>
    have htop := hm.operand hpops
    refine ⟨by simp, fun s hs => ?_, hm.locals⟩
    split at hs
    · simp at hs
    · obtain rfl := Option.some.inj hs
      simp +decide [htop]
  case brTrue | brFalse =>
    have htop := hm.operand hpops
    have hin := isWhole_inParentheses htop
    have hnot := isWhole_negated htop
    have hgoto := isWhole_targetOf hr (by rw [h]; rfl) htarget
    exact ⟨by simp, isWhole_branchComment (by simp +decide [hin, hnot, hgoto]), hm.locals⟩
  case abort =>
    have htop := hm.operand hpops
    exact ⟨by simp, by simp +decide [htop], hm.locals⟩
  case immBorrowField | mutBorrowField =>
    have := isWhole_unborrowed (hm.operand hpops)
    exact ⟨by simp +decide [this, hfield hmiss], by simp, hm.locals⟩
  case cast ty =>
    have htop := hm.operand hpops
    have hty : IsWhole ty.name := by cases ty <;> decide
    exact ⟨by simp +decide [htop, hty], by simp, hm.locals⟩
  case vecLen | vecPopBack =>
    have := isWhole_unborrowed (hm.operand hpops)
    exact ⟨by simp +decide [this], by simp, hm.locals⟩
  case vecUnpack =>
    have htop := hm.operand hpops
    refine ⟨fun f hf => ?_, by simp, hm.locals⟩
    obtain ⟨i, -, rfl⟩ := List.mem_map.1 hf
    simp +decide [htop]
  -- two fragments
  case binary op =>
    have h0 := hm.operand (i := 0) (by omega)
    have h1 := hm.operand hpops
    have hop : IsWhole op.symbol := by cases op <;> decide
    exact ⟨by simp +decide [h0, h1, hop], by simp, hm.locals⟩
  case writeRef =>
    have h0 := isWhole_dereferenced (hm.operand (i := 0) (by omega))
    have h1 := hm.operand hpops
    exact ⟨by simp, by simp +decide [h0, h1], hm.locals⟩
  case vecImmBorrow | vecMutBorrow | vecPushBack | moveTo =>
    have h0 := hm.operand (i := 0) (by omega)
    have h1 := hm.operand hpops
    have := isWhole_unborrowed h1
    exact ⟨by simp +decide [h0, this], by simp +decide [h0, h1, this], hm.locals⟩
  -- three fragments
  case vecSwap =>
    have h0 := hm.operand (i := 0) (by omega)
    have h1 := hm.operand (i := 1) (by omega)
    have h2 := isWhole_unborrowed (hm.operand hpops)
    exact ⟨by simp, by simp +decide [h0, h1, h2], hm.locals⟩

/-- A branch without a target writes a placeholder, in the comment about it, and counts nothing. -/
theorem effect_of_lacksTarget (m : Machine) {r : Instruction} (h : lacksTarget r = true) :
    (m.effect r).pushes = [] ∧ (m.effect r).locals = m.locals ∧
      ((∃ s ∈ (m.effect r).statement, ¬ IsWhole s) ↔ m.options.emitBranchComments = true) := by
  have htarget : targetOf r = placeholder := by
    have ha : r.argument = none := by simp_all [lacksTarget]
    rw [targetOf, ha]
    rfl
  have hcomment : ∀ text : String, (∃ s ∈ m.branchComment (text ++ targetOf r), ¬ IsWhole s) ↔
      m.options.emitBranchComments = true := by
    intro text
    unfold branchComment
    split <;> simp_all [not_isWhole_placeholder]
  have hbranch : r.opcode = .brTrue ∨ r.opcode = .brFalse ∨ r.opcode = .branch := by
    cases hop : r.opcode <;> simp_all [lacksTarget, Opcode.isBranch]
  rcases hbranch with hop | hop | hop <;> rw [effect, hop] <;> exact ⟨rfl, rfl, hcomment _⟩

/-! ## Steps and runs -/

theorem le_unresolved_foldl_step (m : Machine) (rs : List Instruction) :
    m.unresolved ≤ (rs.foldl step m).unresolved := by
  induction rs generalizing m with
  | nil => exact Nat.le_refl _
  | cons r rs ih =>
    refine Nat.le_trans ?_ (ih (m.step r))
    show m.unresolved ≤ m.unresolved + _ + _
    omega

/-- A step that counts nothing as missing shows a placeholder only in the comment about a branch
without a target, and leaves none behind. -/
theorem shows_step {m : Machine} (hm : m.ShowsNone) {r : Instruction}
    (hr : ∀ t ∈ r.texts, IsWhole t) (hu : (m.step r).unresolved = m.unresolved) :
    (m.step r).ShowsNone ∧ ((∃ s ∈ (m.effect r).statement, ¬ IsWhole s) ↔
      m.options.emitBranchComments = true ∧ lacksTarget r = true) := by
  have hu : m.unresolved + ((m.effect r).pops - m.stack.length) +
      (m.effect r).misses = m.unresolved := hu
  have hdrop : ∀ f ∈ m.stack.drop (m.effect r).pops, IsWhole f :=
    fun f hf => hm.stack f (List.mem_of_mem_drop hf)
  have hstack : (∀ f ∈ (m.effect r).pushes, IsWhole f) → ∀ f ∈ (m.step r).stack, IsWhole f := by
    intro hpushes f hf
    rcases List.mem_append.1 hf with hf | hf
    · exact hpushes f (List.mem_reverse.1 hf)
    · exact hdrop f hf
  cases h : lacksTarget r with
  | true =>
    obtain ⟨hpushes, hlocals, hshown⟩ := m.effect_of_lacksTarget h
    refine ⟨⟨hstack (by simp [hpushes]), ?_⟩, by simpa using hshown⟩
    show (m.effect r).locals.AllWhole
    rw [hlocals]
    exact hm.locals
  | false =>
    have hw := writesWhole_effect hm hr h (by omega) (by omega)
    exact ⟨⟨hstack hw.pushes, hw.locals⟩, by simpa using hw.statement⟩

/-- A run that counts nothing as missing shows a placeholder only where it comments on a
branch without a target. -/
theorem shows_foldl_step {m : Machine} (hm : m.ShowsNone) {rs : List Instruction}
    (hrs : ∀ r ∈ rs, ∀ t ∈ r.texts, IsWhole t) (hu : (rs.foldl step m).unresolved = m.unresolved) :
    (∃ s ∈ (rs.foldl step m).emitted, ¬ IsWhole s) ↔ (∃ s ∈ m.emitted, ¬ IsWhole s) ∨
      m.options.emitBranchComments = true ∧ ∃ r ∈ rs, lacksTarget r = true := by
  induction rs generalizing m with
  | nil => simp
  | cons r rs ih =>
    have hle : m.unresolved ≤ (m.step r).unresolved := m.le_unresolved_foldl_step [r]
    have hrest := (m.step r).le_unresolved_foldl_step rs
    rw [List.foldl_cons] at hu ⊢
    obtain ⟨hnext, hshown⟩ := shows_step hm (hrs r List.mem_cons_self) (by omega)
    rw [ih hnext (fun q hq => hrs q (List.mem_cons_of_mem r hq)) (by omega)]
    have hemitted : (∃ s ∈ (m.step r).emitted, ¬ IsWhole s) ↔
        (∃ s ∈ (m.effect r).statement, ¬ IsWhole s) ∨ ∃ s ∈ m.emitted, ¬ IsWhole s := by
      simp [step, apply, or_and_right, exists_or]
    rw [hemitted, hshown]
    simp only [step_options, List.mem_cons]
    grind

theorem ShowsNone.declare {m : Machine} (hm : m.ShowsNone) {d : SlotDecl}
    (hd : IsWhole d.slotType) :
    (m.declare d).ShowsNone where
  stack := hm.stack
  locals := (hm.locals.bind _ (isWhole_nameFor hd {})).2

theorem showsNone_start {h : FunctionHeader} (hh : ∀ p ∈ h.parameters, IsWhole p.paramType)
    (options : MachineOptions) :
    (start h options).ShowsNone where
  stack := by simp [start]
  locals := by
    have key : ∀ (bs : List (Slot × String)) (t : LocalNames), t.AllWhole →
        (∀ b ∈ bs, IsWhole b.2) → (bs.foldl (fun t b => (t.bind b.1 b.2).2) t).AllWhole := by
      intro bs
      induction bs with
      | nil => exact fun t ht _ => ht
      | cons b bs ih =>
        intro t ht hbs
        exact ih _ (ht.bind b.1 (hbs b List.mem_cons_self)).2 fun c hc =>
          hbs c (List.mem_cons_of_mem _ hc)
    refine key _ _ (by simp [LocalNames.AllWhole, LocalNames.get?]) fun b hb => ?_
    obtain ⟨i, hi, rfl⟩ := List.mem_mapIdx.1 hb
    exact isWhole_parameterBase h i (hh _ (List.getElem_mem hi))

theorem ShowsNone.foldl_declare {m : Machine} (hm : m.ShowsNone) {ds : List SlotDecl}
    (hds : ∀ d ∈ ds, IsWhole d.slotType) : (ds.foldl Machine.declare m).ShowsNone := by
  induction ds generalizing m with
  | nil => exact hm
  | cons d ds ih =>
    exact ih (hm.declare (hds d List.mem_cons_self)) fun e he => hds e (List.mem_cons_of_mem _ he)

end Machine

/-- **What is shown as missing although nothing is counted as missing**: the targets of branches
that do not say where to, and nothing else. -/
theorem Machine.placeholder_shown_iff (h : FunctionHeader) (lines : List String)
    (options : MachineOptions) (hh : ∀ t ∈ h.texts, IsWhole t) (hl : ∀ l ∈ lines, IsWhole l)
    (hu : (interpret h (Listing.body lines) options).unresolvedOperands = 0) :
    (∃ s ∈ (interpret h (Listing.body lines) options).function.statements, ¬ IsWhole s) ↔
      options.emitBranchComments = true ∧
        ∃ r ∈ (Listing.body lines).instructions, r.opcode.isBranch = true ∧ r.argument = none := by
  have hparams : ∀ p ∈ h.parameters, IsWhole p.paramType := by
    intro p hp
    refine hh _ (List.mem_append_right _ (List.mem_flatMap.2 ⟨p, hp, ?_⟩))
    simp
  have hdecls : ∀ d ∈ (Listing.body lines).locals, IsWhole d.slotType := by
    intro d hd
    obtain ⟨l, hlines, hread⟩ := Listing.exists_of_mem_locals hd
    exact (hl l hlines).of_isInfix (Listing.isInfix_of_slotDecl? hread)
  have hinstrs : ∀ r ∈ (Listing.body lines).instructions, ∀ t ∈ r.texts, IsWhole t := by
    intro r hr t ht
    obtain ⟨l, hlines, hread⟩ := Listing.exists_of_mem_instructions hr
    exact (hl l hlines).of_isInfix (Listing.isInfix_of_instruction? hread t ht)
  have hm := (showsNone_start hparams options).foldl_declare hdecls
  obtain ⟨t, declared, e⟩ := foldl_declare_eq (Listing.body lines).locals (start h options)
  rw [e] at hm
  have hrun : (start h options).run (Listing.body lines) =
      (Listing.body lines).instructions.foldl step
      { start h options with locals := t, declared } := by
    rw [run, e]
  have hu : ((Listing.body lines).instructions.foldl step
      { start h options with locals := t, declared }).unresolved = 0 := by
    rw [← hrun]
    exact hu
  have hshown := shows_foldl_step hm hinstrs hu
  show (∃ s ∈ ((start h options).run (Listing.body lines)).emitted.reverse, ¬ IsWhole s) ↔ _
  rw [hrun]
  simp only [List.mem_reverse, hshown]
  simp [start, lacksTarget]

/-- A function that burns a coin or keeps its hands off it. -/
def burnHeader : FunctionHeader where
  name := "burn_if"
  parameters := [⟨"coin", "Coin<SUI>"⟩, ⟨"Arg1", "bool"⟩]

/-- A body in which nothing is counted as missing.  One branch of three says where to. -/
def burnLines : List String :=
  ["L0: loc0: u64", "B0:", "0: MoveLoc[1](Arg1: bool)", "1: BrFalse",
    "2: MoveLoc[0](Arg0: Coin<SUI>)",
    "3: Call[1](coin::burn(Coin<SUI>))", "4: LdTrue", "5: BrTrue(7)", "6: Branch", "7: Ret"]

/-- The two branches without a target are shown in comments. -/
theorem Machine.placeholder_shown_burn :
    ((∀ t ∈ burnHeader.texts, IsWhole t) ∧ (∀ l ∈ burnLines, IsWhole l) ∧
      (interpret burnHeader (Listing.body burnLines) {}).unresolvedOperands = 0) ∧
    (interpret burnHeader (Listing.body burnLines) {}).isComplete = true ∧
    ∃ s ∈ (interpret burnHeader (Listing.body burnLines) {}).function.statements, ¬ IsWhole s := by
  have hh : ∀ t ∈ burnHeader.texts, IsWhole t := by decide
  have hl : ∀ l ∈ burnLines, IsWhole l := by decide
  have hu : (interpret burnHeader (Listing.body burnLines) {}).unresolvedOperands = 0 := by
    decide +kernel
  refine ⟨⟨hh, hl, hu⟩, by decide +kernel, (placeholder_shown_iff _ _ {} hh hl hu).2 ⟨rfl, ?_⟩⟩
  exact ⟨⟨1, .brFalse, none, none⟩, by decide +kernel, rfl, rfl⟩

/-- The shortest such functions: their branches have no target, they count as complete, and
show two placeholders. -/
theorem Machine.placeholder_uncounted :
    let i := interpret { name := "f" } (Listing.body ["0: LdTrue", "1: Branch", "2: BrTrue"]) {}
    (∀ t ∈ ({ name := "f" } : FunctionHeader).texts, IsWhole t) ∧
    (∀ l ∈ ["0: LdTrue", "1: Branch", "2: BrTrue"], IsWhole l) ∧
    i.unresolvedOperands = 0 ∧ i.isComplete = true ∧
    i.function.statements = ["// goto ?", "// if (true) goto ?"] ∧
    ¬ ∀ s ∈ i.function.statements, IsWhole s := by
  decide +kernel

end PseudoMove
