import PseudoMove.Proofs.Accounts
import PseudoMove.Proofs.OutputGrowth
import PseudoMove.Proofs.Overflow

/-!
# When decompilation fails

A listing is decompiled unless it is blank, one of its functions has more instructions than allowed,
or the depth of parentheses in a fragment does not fit the 32 bits it is counted in.  Functions are
run in the order of the text, and the first that fails is what the failure tells of; nothing of the
functions before it is left in the outcome, which is the annotated listing.

* `mapM_eq_ok`, `mapM_eq_error` — a traversal that can fail, by its first failure;
* `FunctionRun.ofListing_eq_ok`, `FunctionRun.ofListing_eq_error` — one function;
* `Decompilation.ofText?_eq_ok`, `Decompilation.ofText?_eq_error` — a listing;
* `Outcome.ofText_exact` — what a user gets;
* `Outcome.ofText_nested` — a short listing whose parentheses cannot be counted: vectors unpacked
  and packed again multiply those that a literal leaves open (`Opens.pack`).
-/

namespace PseudoMove

open Text Fragment

/-! ## Traversals -/

section

variable {α β ε : Type} {g : α → Except ε β}

theorem mapM_eq_ok {xs : List α} (h : ∀ x ∈ xs, ∃ y, g x = .ok y) : ∃ ys, xs.mapM g = .ok ys := by
  induction xs with
  | nil => exact ⟨[], rfl⟩
  | cons x xs ih =>
    obtain ⟨y, hy⟩ := h x List.mem_cons_self
    obtain ⟨ys, hys⟩ := ih fun z hz => h z (List.mem_cons_of_mem x hz)
    exact ⟨y :: ys, by rw [List.mapM_cons, hy, hys]; rfl⟩

/-- A traversal fails as the first element does that fails. -/
theorem mapM_eq_error {before : List α} (h : ∀ x ∈ before, ∃ y, g x = .ok y) {x : α} {e : ε}
    (hx : g x = .error e) (after : List α) : (before ++ x :: after).mapM g = .error e := by
  induction before with
  | nil =>
    rw [List.nil_append, List.mapM_cons, hx]
    rfl
  | cons z before ih =>
    obtain ⟨y, hy⟩ := h z List.mem_cons_self
    rw [List.cons_append, List.mapM_cons, hy, ih fun w hw => h w (List.mem_cons_of_mem z hw)]
    rfl

end

/-- Either no element fails, or there is a first one that does. -/
theorem forall_or_exists_first {α ε : Type} (p : α → Option ε) (xs : List α) :
    (∀ x ∈ xs, p x = none) ∨
    ∃ before x after e, xs = before ++ x :: after ∧ (∀ y ∈ before, p y = none) ∧ p x = some e := by
  induction xs with
  | nil => exact .inl fun x hx => absurd hx List.not_mem_nil
  | cons x xs ih =>
    cases hx : p x with
    | some e => exact .inr ⟨[], x, xs, e, rfl, fun y hy => absurd hy List.not_mem_nil, hx⟩
    | none =>
      rcases ih with hall | ⟨before, z, after, e, rfl, hbefore, hz⟩
      · exact .inl (List.forall_mem_cons.2 ⟨hx, hall⟩)
      · exact .inr ⟨x :: before, z, after, e, rfl, List.forall_mem_cons.2 ⟨hx, hbefore⟩, hz⟩

/-! ## Functions -/

namespace FunctionListing

/-- How many instructions the body of a function has. -/
def instructionCount (f : FunctionListing) : Nat := (Listing.body f.bodyLines).instructions.length

/-- What is told of a function that has more instructions than allowed. -/
def tooLong (c : Config) (f : FunctionListing) : String :=
  "Function " ++ f.name ++ " has " ++ toString f.instructionCount ++ " instructions (limit " ++
    toString c.maxInstructionsPerFunction ++ ")"

end FunctionListing

namespace FunctionRun

variable {c : Config} {text : String} {f : FunctionListing}

/-- The depth of parentheses fits 32 bits in all fragments in which a run over the function counts
it. -/
def CountsParentheses (c : Config) (f : FunctionListing) : Prop :=
  (loaded c f).countsAll (Listing.body f.bodyLines).instructions = true

instance (c : Config) (f : FunctionListing) : Decidable (CountsParentheses c f) :=
  inferInstanceAs (Decidable (_ = true))

/-- What a run over the function fails with. -/
def failure? (c : Config) (f : FunctionListing) : Option DecompileFailure :=
  if c.maxInstructionsPerFunction < f.instructionCount then
    some (.functionTooLong f.name f.instructionCount c.maxInstructionsPerFunction)
  else if CountsParentheses c f then none
  else some (.overflow .parenthesisDepth)

theorem failure?_eq_none_iff :
    failure? c f = none ↔ f.instructionCount ≤ c.maxInstructionsPerFunction ∧
      CountsParentheses c f := by
  unfold failure?
  split_ifs with hlong hcounts
  · exact iff_of_false (by simp) fun h => absurd h.1 (not_le_of_gt hlong)
  · exact iff_of_true rfl ⟨le_of_not_gt hlong, hcounts⟩
  · exact iff_of_false (by simp) fun h => hcounts h.2

/-- A function fails because it is too long, or because of a depth of parentheses. -/
theorem failure?_eq_some {e : DecompileFailure} (h : failure? c f = some e) :
    c.maxInstructionsPerFunction < f.instructionCount ∧ e.message = f.tooLong c ∨
    f.instructionCount ≤ c.maxInstructionsPerFunction ∧ ¬ CountsParentheses c f ∧
      e.message = "Decompilation failed: attempt to add with overflow" := by
  unfold failure? at h
  split_ifs at h with hlong hcounts
  · obtain rfl := Option.some.inj h
    exact .inl ⟨hlong, rfl⟩
  · obtain rfl := Option.some.inj h
    exact .inr ⟨le_of_not_gt hlong, hcounts, rfl⟩

theorem ofListing_eq_error {e : DecompileFailure} (h : failure? c f = some e) :
    ofListing c f = .error e := by
  unfold failure? at h
  unfold ofListing
  split_ifs at h with hlong hcounts
  · obtain rfl := Option.some.inj h
    exact if_pos hlong
  · obtain rfl := Option.some.inj h
    have hshort : ¬ (Listing.body f.bodyLines).instructions.length > c.maxInstructionsPerFunction :=
      hlong
    have hoverflow : (loaded c f).countsAll (Listing.body f.bodyLines).instructions = false :=
      Bool.eq_false_iff.2 hcounts
    dsimp only
    rw [if_neg hshort, hoverflow]
    rfl

/-- A function that does not fail is run: what it counts as unresolved fits a machine word. -/
theorem ofListing_eq_ok (hf : f ∈ (Listing.read text).functions)
    (hsize : text.utf8ByteSize * (c.maxInstructionsPerFunction + text.utf8ByteSize + 4) < wordLimit)
    (h : failure? c f = none) : ∃ run, ofListing c f = .ok run := by
  obtain ⟨hle, hcounts⟩ := failure?_eq_none_iff.1 h
  have hshort : ¬ (Listing.body f.bodyLines).instructions.length > c.maxInstructionsPerFunction :=
    not_lt_of_ge hle
  have hcounted : (loaded c f).countsAll (Listing.body f.bodyLines).instructions = true := hcounts
  unfold ofListing
  dsimp only
  rw [if_neg hshort, hcounted, if_neg (by decide), if_pos (unresolvedOperands_lt hf hsize)]
  exact ⟨_, rfl⟩

end FunctionRun

/-! ## Listings -/

namespace Decompilation

open FunctionRun

theorem ofText?_of_blank (c : Config) {text : String} (h : trim text.toList = []) :
    ofText? c text = .error .blankText := by
  unfold ofText?
  exact if_pos h

section

variable {c : Config} {text : String} (htext : trim text.toList ≠ [])
  (hsize : text.utf8ByteSize * (c.maxInstructionsPerFunction + text.utf8ByteSize + 4) < wordLimit)
include htext hsize

/-- A listing none of whose functions fails is decompiled. -/
theorem ofText?_eq_ok (hindent : c.indentSize ≤ Config.maxIndentSize)
    (hall : ∀ f ∈ (Listing.read text).functions, failure? c f = none) :
    ∃ d, ofText? c text = .ok d := by
  obtain ⟨runs, hruns⟩ :=
    mapM_eq_ok (g := ofListing c) fun f hf => ofListing_eq_ok hf hsize (hall f hf)
  unfold ofText?
  rw [if_neg htext]
  dsimp only
  rw [hruns]
  exact ⟨_, if_pos (canIndent_of_le hindent _)⟩

/-- A listing fails with its first function that fails. -/
theorem ofText?_eq_error {before after : List FunctionListing} {f : FunctionListing}
    {e : DecompileFailure} (hfunctions : (Listing.read text).functions = before ++ f :: after)
    (hbefore : ∀ g ∈ before, failure? c g = none) (hf : failure? c f = some e) :
    ofText? c text = .error e := by
  have hran : ∀ g ∈ before, ∃ run, ofListing c g = .ok run := fun g hg =>
    ofListing_eq_ok (hfunctions ▸ List.mem_append_left _ hg) hsize (hbefore g hg)
  unfold ofText?
  rw [if_neg htext]
  dsimp only
  rw [hfunctions, mapM_eq_error hran (ofListing_eq_error hf) after]
  rfl

end

end Decompilation

/-! ## Parentheses that cannot be counted -/

/-- The fragment closes no parenthesis, and opens at least `n`. -/
structure Opens (n : Nat) (f : String) : Prop where
  notMem : ')' ∉ f.toList
  le_count : n ≤ f.toList.count '('

namespace Opens

variable {k n : Nat} {f g v : String}

theorem zero (h : ')' ∉ f.toList) : Opens 0 f := ⟨h, Nat.zero_le _⟩

theorem append (hf : Opens k f) (hg : Opens n g) : Opens (k + n) (f ++ g) where
  notMem := by
    rw [String.toList_append, List.mem_append]
    exact fun h => h.elim hf.notMem hg.notMem
  le_count := by
    rw [String.toList_append, List.count_append]
    exact Nat.add_le_add hf.le_count hg.le_count

theorem intercalate {sep : String} (hsep : ')' ∉ sep.toList) {ts : List String}
    (h : ∀ t ∈ ts, Opens n t) : Opens (ts.length * n) (sep.intercalate ts) := by
  induction ts with
  | nil =>
    rw [List.length_nil, Nat.zero_mul]
    exact zero List.not_mem_nil
  | cons t ts ih =>
    have ht := h t List.mem_cons_self
    cases ts with
    | nil =>
      rw [List.length_singleton, Nat.one_mul]
      exact ht
    | cons u us =>
      have hrest := ih fun t ht => h t (List.mem_cons_of_mem _ ht)
      rw [String.intercalate_cons_cons, List.length_cons, Nat.succ_mul, Nat.add_comm]
      exact (ht.append (zero hsep)).append hrest

theorem notMem_toString (i : Nat) : ')' ∉ (toString i).toList := by
  rw [Nat.toString_eq_repr, Nat.toList_repr]
  intro h
  exact absurd (isDigit_of_mem_toDigits h) (by decide)

theorem replicate (n : Nat) : Opens n (String.ofList (List.replicate n '(')) where
  notMem := by
    rw [String.toList_ofList]
    intro h
    exact absurd (List.eq_of_mem_replicate h) (by decide)
  le_count := by rw [String.toList_ofList, List.count_replicate_self]

theorem element (hv : Opens n v) (i : Nat) : Opens n (v ++ "[" ++ toString i ++ "]") :=
  ((hv.append (zero (by decide))).append (zero (notMem_toString i))).append (zero (by decide))

/-- **A vector unpacked and packed again opens as many for each of its elements.** -/
theorem pack (hv : Opens n v) (count : Nat) :
    Opens (count * n) ("vector[" ++ commaList (Machine.elements v count) ++ "]") := by
  have helements : ∀ t ∈ Machine.elements v count, Opens n t := by
    intro t ht
    obtain ⟨i, -, rfl⟩ := List.mem_map.1 ht
    exact hv.element i
  have hlist : Opens ((Machine.elements v count).length * n)
      (commaList (Machine.elements v count)) := intercalate (by decide) helements
  rw [Machine.length_elements] at hlist
  have hvector :=
    ((zero (f := "vector[") (by decide)).append hlist).append (zero (f := "]") (by decide))
  rwa [Nat.zero_add, Nat.add_zero] at hvector

/-- In parentheses of its own, a fragment that opens too many cannot be counted. -/
theorem isCountable_eq_false (h : Opens n f) (hn : depthLimit ≤ 1 + n) :
    isCountable ("(" ++ f ++ ")") = false := by
  refine Fragment.isCountable_eq_false (s := f.toList) (t := [')']) ?_ ?_ h.notMem ?_
  · rw [String.toList_append, String.toList_append]
    rfl
  · exact List.getLast?_concat
  · have := h.le_count
    omega

end Opens

namespace Machine

variable {m : Machine}

/-- A run in which one fragment cannot be counted fails. -/
theorem countsAll_eq_false {before after : List Instruction} {r : Instruction} {f : String}
    (hf : (before.foldl step m).counted? r = some f) (h : isCountable f = false) :
    m.countsAll (before ++ r :: after) = false := by
  induction before generalizing m with
  | nil =>
    rw [List.nil_append, countsAll, show m.counted? r = some f from hf, Option.all_some,
      h, Bool.false_and]
  | cons q before ih =>
    rw [List.cons_append, countsAll, ih hf, Bool.and_false]

theorem stack_literal {r : Instruction} {w : IntWidth} (hop : r.opcode = .ldInt w) {a : String}
    (ha : r.argument = some a) : (m.step r).stack = a :: m.stack := by
  rw [step, m.effect_literal hop ha]
  rfl

theorem stack_sum {r : Instruction} (hop : r.opcode = .binary .add) {a b : String} {s : List String}
    (hs : m.stack = b :: a :: s) :
    (m.step r).stack = ("(" ++ (a ++ " " ++ "+" ++ " " ++ b) ++ ")") :: s := by
  have hfragment : "(" ++ a ++ " " ++ "+" ++ " " ++ b ++ ")" =
      "(" ++ (a ++ " " ++ "+" ++ " " ++ b) ++ ")" := by
    simp only [String.append_assoc]
  rw [step, m.effect_binary hop hs, ← hfragment]
  show [_].reverse ++ m.stack.drop 2 = _
  rw [hs]
  rfl

end Machine

namespace FunctionRun

/-- Many parentheses that a literal opens and nothing closes. -/
def openLiteral : String := String.ofList (List.replicate 64 '(')

/-- An instruction that spreads a vector, as a listing writes it. -/
def spreading (offset n : Nat) : Instruction := ⟨offset, .vecUnpack, none, some (toString n)⟩

/-- An instruction that gathers a vector. -/
def gathering (offset n : Nat) : Instruction := ⟨offset, .vecPack, none, some (toString n)⟩

/-- Instructions that multiply them, by 1024 twice, by 16 and by two. -/
def nestedBody : List Instruction :=
  [⟨0, .ldInt .u64, none, some openLiteral⟩, spreading 1 1024, gathering 2 1024, spreading 3 1024,
    gathering 4 1024, spreading 5 16, gathering 6 16, spreading 7 2, ⟨8, .binary .add, none, none⟩]

/-- One fragment is on the stack, and it opens at least `n` parentheses. -/
def HoldsOpen (n : Nat) (m : Machine) : Prop :=
  m.options.maxVectorElements = 100000 ∧ ∃ f, m.stack = [f] ∧ Opens n f

theorem HoldsOpen.repack {n k i j : Nat} {m : Machine} (h : HoldsOpen n m)
    (hspread : vectorCount 100000 (spreading i k) = k)
    (hgather : vectorCount 100000 (gathering j k) = k) :
    HoldsOpen (k * n) ((m.step (spreading i k)).step (gathering j k)) := by
  obtain ⟨hlimit, f, hstack, hf⟩ := h
  rw [← hlimit] at hspread hgather
  exact ⟨hlimit, _, Machine.stack_repack rfl rfl hspread hgather hstack, hf.pack k⟩

/-- They leave a sum on the stack that opens as many parentheses as do not fit. -/
theorem exists_stack_nestedBody {m : Machine} (hs : m.stack = [])
    (hlimit : m.options.maxVectorElements = 100000) :
    ∃ t, (nestedBody.foldl Machine.step m).stack = ["(" ++ t ++ ")"] ∧ Opens (2 ^ 31) t := by
  have hliteral : (⟨0, .ldInt .u64, none, some openLiteral⟩ : Instruction).argument =
      some openLiteral := by
    decide +kernel
  have hload : HoldsOpen 64 (m.step ⟨0, .ldInt .u64, none, some openLiteral⟩) := by
    refine ⟨hlimit, openLiteral, ?_, Opens.replicate 64⟩
    rw [Machine.stack_literal rfl hliteral, hs]
  have hfirst : HoldsOpen (1024 * 64) _ :=
    hload.repack (i := 1) (j := 2) (by decide +kernel) (by decide +kernel)
  have hsecond : HoldsOpen (1024 * (1024 * 64)) _ :=
    hfirst.repack (i := 3) (j := 4) (by decide +kernel) (by decide +kernel)
  obtain ⟨hlimit', f, hstack, hf⟩ : HoldsOpen (16 * (1024 * (1024 * 64))) _ :=
    hsecond.repack (i := 5) (j := 6) (by decide +kernel) (by decide +kernel)
  have hcount : vectorCount 100000 (spreading 7 2) = 2 := by decide +kernel
  rw [← hlimit'] at hcount
  have htwo := Machine.stack_unpack rfl hcount hstack
  refine ⟨_, Machine.stack_sum rfl htwo, ?_⟩
  have hblank : Opens 0 " " := .zero (by decide)
  have hplus : Opens 0 "+" := .zero (by decide)
  have hn : 2 ^ 31 = 16 * (1024 * (1024 * 64)) + 0 + 0 + 0 + 16 * (1024 * (1024 * 64)) := by
    norm_num
  rw [hn]
  exact ((((hf.element 0).append hblank).append hplus).append hblank).append (hf.element 1)

theorem not_countsParentheses_nestedBody {f : FunctionListing} (hbody : Listing.body f.bodyLines =
      ⟨[], nestedBody ++ [⟨9, .not, none, none⟩, ⟨10, .ret, none, none⟩]⟩) :
    ¬ CountsParentheses {} f := by
  have hstart : loaded {} f = .start f.toFunctionHeader (machineOptions {}) := by
    rw [loaded, hbody]
    rfl
  obtain ⟨t, hstack, ht⟩ :=
    exists_stack_nestedBody (m := .start f.toFunctionHeader (machineOptions {})) rfl rfl
  have hlarge : depthLimit ≤ 1 + 2 ^ 31 := by norm_num [depthLimit]
  unfold CountsParentheses
  rw [hstart, hbody, Bool.not_eq_true]
  refine Machine.countsAll_eq_false (f := "(" ++ t ++ ")") ?_ (ht.isCountable_eq_false hlarge)
  show some (Machine.operand _ 0) = _
  rw [Machine.operand, hstack]
  rfl

end FunctionRun

/-! ## Outcomes -/

namespace Outcome

open FunctionRun

/-- What an outcome is that is no success: the annotated listing and why, with
nothing of a decompilation. -/
structure IsFailure (text warning : String) (o : Outcome) : Prop where
  isSuccess : o.isSuccess = false
  module : o.module = none
  statistics : o.statistics = {}
  source : o.source = annotate text
  warnings : o.warnings = [warning]

theorem isFailure_of_error {c : Config} {text : String} {e : DecompileFailure}
    (h : Decompilation.ofText? c text = .error e) : (ofText c text).IsFailure text e.message := by
  unfold ofText
  rw [h]
  exact ⟨rfl, rfl, rfl, rfl, rfl⟩

theorem isSuccess_of_ok {c : Config} {text : String} {d : Decompilation}
    (h : Decompilation.ofText? c text = .ok d) : (ofText c text).isSuccess = true := by
  unfold ofText
  rw [h]

/-- The function is reached: all functions before it are short enough, and their
parentheses can be counted. -/
def Reaches (c : Config) (text : String) (f : FunctionListing) : Prop :=
  ∃ before after, (Listing.read text).functions = before ++ f :: after ∧
    ∀ g ∈ before, g.instructionCount ≤ c.maxInstructionsPerFunction ∧ CountsParentheses c g

section

variable {c : Config} {text : String} (htext : text.utf8ByteSize < 2 ^ 31)
  (hindent : c.indentSize ≤ Config.maxIndentSize) (hlimit : c.maxInstructionsPerFunction ≤ 2 ^ 31)
include htext hindent hlimit

/-- A text that is not blank is decompiled, or one of its functions is the first that fails. -/
theorem ofText_cases (hne : trim text.toList ≠ []) :
    ((∀ f ∈ (Listing.read text).functions, failure? c f = none) ∧
      (ofText c text).isSuccess = true) ∨
    ∃ f e, Reaches c text f ∧ failure? c f = some e ∧ (ofText c text).IsFailure text e.message := by
  have hsize :
      text.utf8ByteSize * (c.maxInstructionsPerFunction + text.utf8ByteSize + 4) < wordLimit :=
    (Nat.mul_le_mul htext.le (Nat.add_le_add_right (Nat.add_le_add hlimit htext.le) 4)).trans_lt
      (by decide)
  rcases forall_or_exists_first (failure? c) (Listing.read text).functions with
    hall | ⟨before, f, after, e, hfunctions, hbefore, hf⟩
  · obtain ⟨d, hd⟩ := Decompilation.ofText?_eq_ok hne hsize hindent hall
    exact .inl ⟨hall, isSuccess_of_ok hd⟩
  · have herror := Decompilation.ofText?_eq_error hne hsize hfunctions hbefore hf
    have hreaches : Reaches c text f :=
      ⟨before, after, hfunctions, fun g hg => failure?_eq_none_iff.1 (hbefore g hg)⟩
    exact .inr ⟨f, e, hreaches, hf, isFailure_of_error herror⟩

/-- **Failure is exact and leaves no partial result.** A listing is decompiled if and only if it is
not blank, no function has more instructions than allowed, and the depth of parentheses can be
counted in all of them. Otherwise the outcome is the annotated listing with one warning: that the
listing is blank, or what the first function fails with that fails, its length or else the overflow
of such a count. Only a fragment of two gibibytes can overflow it. -/
theorem ofText_exact :
    ((ofText c text).isSuccess = true ↔ trim text.toList ≠ [] ∧ ∀ f ∈ (Listing.read text).functions,
      f.instructionCount ≤ c.maxInstructionsPerFunction ∧ CountsParentheses c f) ∧
    ((ofText c text).isSuccess = false → ∃ warning, (ofText c text).IsFailure text warning ∧
      (trim text.toList = [] ∧ warning = "Input contains no disassembly text" ∨
        trim text.toList ≠ [] ∧ ∃ f, Reaches c text f ∧
          (c.maxInstructionsPerFunction < f.instructionCount ∧ warning = f.tooLong c ∨
            f.instructionCount ≤ c.maxInstructionsPerFunction ∧ ¬ CountsParentheses c f ∧
              warning = "Decompilation failed: attempt to add with overflow"))) ∧
    ∀ f, ¬ CountsParentheses c f → ∃ before fragment,
      before <+: (Listing.body f.bodyLines).instructions ∧
      fragment ∈ (before.foldl Machine.step (loaded c f)).stack ∧
        2 ^ 31 ≤ fragment.utf8ByteSize := by
  have hfragment : ∀ f, ¬ CountsParentheses c f →
      ∃ before fragment, before <+: (Listing.body f.bodyLines).instructions ∧
      fragment ∈ (before.foldl Machine.step (loaded c f)).stack ∧
      2 ^ 31 ≤ fragment.utf8ByteSize := by
    intro f hf
    by_contra hsmall
    refine hf (Machine.StaysBelow.countsAll fun before hbefore fragment hmem => ?_)
    by_contra hlarge
    exact hsmall ⟨before, fragment, (List.mem_inits _ _).1 hbefore, hmem, not_lt.1 hlarge⟩
  by_cases hblank : trim text.toList = []
  · have hfailure := isFailure_of_error (Decompilation.ofText?_of_blank c hblank)
    exact ⟨by simp [hfailure.isSuccess, hblank],
      fun _ => ⟨_, hfailure, .inl ⟨hblank, rfl⟩⟩, hfragment⟩
  · rcases ofText_cases htext hindent hlimit hblank with ⟨hall, hsuccess⟩ |
      ⟨f, e, hreaches, hf, hfailure⟩
    · have hruns := fun f hf => failure?_eq_none_iff.1 (hall f hf)
      exact ⟨⟨fun _ => ⟨hblank, hruns⟩, fun _ => hsuccess⟩,
        fun h => absurd (hsuccess.symm.trans h) (by decide), hfragment⟩
    · have hmem : f ∈ (Listing.read text).functions := by
        obtain ⟨before, after, hfunctions, -⟩ := hreaches
        rw [hfunctions]
        exact List.mem_append_right _ List.mem_cons_self
      refine ⟨⟨fun h => absurd (hfailure.isSuccess.symm.trans h) (by decide), fun ⟨_, hall⟩ => ?_⟩,
        fun _ => ⟨_, hfailure, .inr ⟨hblank, f, hreaches, failure?_eq_some hf⟩⟩, hfragment⟩
      have hnone := failure?_eq_none_iff.2 (hall f hmem)
      exact absurd (hnone.symm.trans hf) (by simp)

end

/-- A listing with a function that is run, and would be warned about, before two that are too
long. -/
def crowdedText : String :=
  "module 0x2::vault \x7b\npublic fun open(Arg0: u64): u64 \x7b\n0: Frobnicate\n1: Ret\n\x7d\n" ++
    "public fun close() \x7b\n0: LdTrue\n1: Pop\n2: Ret\n\x7d\n" ++
    "public fun audit() \x7b\n0: Nop\n1: Nop\n2: Nop\n3: Ret\n\x7d\n\x7d\n"

theorem ofText_exact_crowded :
    let c : Config := { maxInstructionsPerFunction := 2 }
    (crowdedText.utf8ByteSize < 2 ^ 31 ∧ c.indentSize ≤ Config.maxIndentSize ∧
      c.maxInstructionsPerFunction ≤ 2 ^ 31) ∧
    (ofText c crowdedText).IsFailure crowdedText "Function close has 3 instructions (limit 2)" ∧
    (ofText {} crowdedText).isSuccess = true := by
  intro c
  have hsize : crowdedText.utf8ByteSize < 2 ^ 31 := by decide +kernel
  -- all in one evaluation, for which the listing is read only once
  have hread : trim crowdedText.toList ≠ [] ∧
      (Listing.read crowdedText).functions.map (·.instructionCount) = [2, 3, 4] ∧
      (∀ f ∈ (Listing.read crowdedText).functions, CountsParentheses {} f) ∧
      (ofText c crowdedText).warnings = ["Function close has 3 instructions (limit 2)"] := by
    decide +kernel
  obtain ⟨hblank, hlengths, hcounts, hwarnings⟩ := hread
  have hexact := ofText_exact hsize (by decide : c.indentSize ≤ Config.maxIndentSize) (by decide)
  have hallowed := ofText_exact (c := {}) hsize (by decide) (by decide)
  have hbound (k : Nat) : (∀ f ∈ (Listing.read crowdedText).functions, f.instructionCount ≤ k) ↔
      ∀ n ∈ [2, 3, 4], n ≤ k := by
    rw [← hlengths, List.forall_mem_map]
  have hfails : (ofText c crowdedText).isSuccess = false := by
    refine Bool.eq_false_iff.2 fun h => ?_
    have hshort := (hbound 2).1 fun f hf => ((hexact.1.1 h).2 f hf).1
    exact absurd hshort (by decide)
  obtain ⟨warning, hfailure, -⟩ := hexact.2.1 hfails
  have hshort := (hbound ({} : Config).maxInstructionsPerFunction).2 (by decide)
  exact ⟨⟨hsize, by decide, by decide⟩,
    ⟨hfails, hfailure.module, hfailure.statistics, hfailure.source, hwarnings⟩,
    hallowed.1.2 ⟨hblank, fun f hf => ⟨hshort f hf, hcounts f hf⟩⟩⟩

/-- A function with those instructions, and a negation behind them. -/
def nestedText : String :=
  "public fun f() \x7b\n0: LdU64(" ++ openLiteral ++ ")\n1: VecUnpack(1024)\n2: VecPack(1024)\n" ++
    "3: VecUnpack(1024)\n4: VecPack(1024)\n5: VecUnpack(16)\n6: VecPack(16)\n" ++
    "7: VecUnpack(2)\n8: Add\n9: Not\n10: Ret\n\x7d\n"

/-- **A short listing whose parentheses cannot be counted.** It is not blank and none of its
functions is too long. -/
theorem ofText_nested :
    let c : Config := {}
    (nestedText.utf8ByteSize < 2 ^ 31 ∧ c.indentSize ≤ Config.maxIndentSize ∧
      c.maxInstructionsPerFunction ≤ 2 ^ 31) ∧
    (trim nestedText.toList ≠ [] ∧ ∀ f ∈ (Listing.read nestedText).functions,
      f.instructionCount ≤ c.maxInstructionsPerFunction) ∧
    (ofText c nestedText).IsFailure nestedText
    "Decompilation failed: attempt to add with overflow" := by
  intro c
  have hsize : nestedText.utf8ByteSize < 2 ^ 31 := by decide +kernel
  have hread : trim nestedText.toList ≠ [] ∧
      (Listing.read nestedText).functions.map (fun f => Listing.body f.bodyLines) =
        [⟨[], nestedBody ++ [⟨9, .not, none, none⟩, ⟨10, .ret, none, none⟩]⟩] := by decide +kernel
  obtain ⟨hblank, hbodies⟩ := hread
  obtain ⟨f, hfunctions, hbody⟩ := List.map_eq_singleton_iff.1 hbodies
  have hshort : f.instructionCount ≤ c.maxInstructionsPerFunction := by
    rw [FunctionListing.instructionCount, hbody]
    show 11 ≤ 100000
    norm_num
  have hfailure : failure? c f = some (.overflow .parenthesisDepth) := by
    unfold failure?
    rw [if_neg (not_lt_of_ge hshort), if_neg (not_countsParentheses_nestedBody hbody)]
  have hfits : nestedText.utf8ByteSize *
      (c.maxInstructionsPerFunction + nestedText.utf8ByteSize + 4) < wordLimit := by
    decide +kernel
  have hfirst : (Listing.read nestedText).functions = [] ++ f :: [] := hfunctions
  have herror := Decompilation.ofText?_eq_error hblank hfits hfirst
    (fun g hg => absurd hg List.not_mem_nil) hfailure
  refine ⟨⟨hsize, by decide, by decide⟩, ⟨hblank, ?_⟩, isFailure_of_error herror⟩
  rw [hfunctions]
  exact List.forall_mem_singleton.2 hshort

end Outcome

end PseudoMove
