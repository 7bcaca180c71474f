import PseudoMove.Proofs.NameTable
import PseudoMove.Proofs.RemarkTexts
import PseudoMove.Proofs.SlotLabel

/-!
# How long names get

A name takes at most twice the bytes of its type and a few more (`size_nameFor_le`): a capital
letter may become a bar and a small one, and no character is lowered into more bytes than that
leaves.  The number behind a name is at most the number of names in use, since the numbers of a base
are handed out in order (`NameSupply.InOrder`).

* `size_nameFor_le`, `size_localBase_le` — names from types and from slots;
* `LocalNames.Sized` — the invariant of the table: the order of numbers, and a bound on all names.
-/

namespace PseudoMove

open Text Identifier Naming TypeText String

/-! ## Numbers -/

theorem utf8Len_of_forall {s : List Char} (h : ∀ c ∈ s, c.utf8Size = 1) : utf8Len s = s.length := by
  induction s with
  | nil => simp
  | cons c s ih =>
    rw [utf8Len_cons, ih fun d hd => h d (List.mem_cons_of_mem c hd), h c List.mem_cons_self,
      List.length_cons]

theorem size_toString (n : Nat) : (toString n).utf8ByteSize = (Nat.toDigits 10 n).length := by
  rw [← utf8Len_toList, Nat.toString_eq_repr, Nat.toList_repr]
  refine utf8Len_of_forall fun c hc => ?_
  have := toNat_of_isDigit (isDigit_of_mem_toDigits hc)
  rw [Char.utf8Size_eq_one_iff, UInt32.le_iff_toNat_le]
  show c.toNat ≤ 127
  omega

/-- A machine word has at most twenty digits. -/
theorem size_toString_le {n : Nat} (h : n < wordLimit) : (toString n).utf8ByteSize ≤ 20 := by
  rw [size_toString]
  exact (Nat.length_toDigits_le_iff (by decide) (by decide)).2 (h.trans (by decide))

/-- A large number has many digits. -/
theorem lt_size_toString {n d : Nat} (hd : 0 < d) (h : 10 ^ d ≤ n) :
    d < (toString n).utf8ByteSize := by
  rw [size_toString, ← Nat.not_le, Nat.length_toDigits_le_iff (by decide) hd]
  exact Nat.not_lt.2 h

/-! ## Snake case and sanitizing -/

theorem utf8Size_bounds (c : Char) :
    (c.toNat < 0x80 ↔ c.utf8Size ≤ 1) ∧ (c.toNat < 0x800 ↔ c.utf8Size ≤ 2) ∧
      (c.toNat < 0x10000 ↔ c.utf8Size ≤ 3) ∧ c.utf8Size ≤ 4 := by
  have hval : c.val.toNat = c.toNat := rfl
  simp only [Char.utf8Size, UInt32.le_iff_toNat_le, hval, UInt32.toNat_ofNatLT]
  split
  · omega
  · split
    · omega
    · split <;> omega

/-- A character from the first `0x800` is lowered into the first `0x10000`. -/
theorem lowerCode_lt {n : Nat} (hn : n < 0x800) : lowerCode loweringRuns n < 0x10000 := by
  have hruns :
      (loweringRuns.all fun r => decide (0x800 ≤ r.1 ∨ r.2.1 + r.2.2.2 < 0x10000)) = true := by
    decide
  unfold lowerCode
  split
  · next r hr =>
    have h1 := of_decide_eq_true (List.all_eq_true.1 hruns r (List.mem_of_find?_eq_some hr))
    have h2 := List.find?_some hr
    simp only [Bool.and_eq_true, decide_eq_true_eq] at h2
    omega
  · omega

/-- A letter lowered takes, with a bar in front, at most twice the bytes it had. -/
theorem utf8Len_lowerChar_lt (c : Char) : utf8Len (lowerChar c) < 2 * c.utf8Size := by
  have hc := utf8Size_bounds c
  have hpos := c.utf8Size_pos
  unfold lowerChar
  split
  · next hlt =>
    have ascii : ∀ n < 128, (Char.ofNat n).toLower.utf8Size = 1 := by decide
    have := ascii c.toNat hlt
    rw [Char.ofNat_toNat] at this
    rw [utf8Len_cons, utf8Len_nil, this]
    omega
  · split
    · have : utf8Len ['i', '\u0307'] = 3 := rfl
      omega
    · have hd := utf8Size_bounds (Char.ofNat (lowerCode loweringRuns c.toNat))
      have hcode : (Char.ofNat (lowerCode loweringRuns c.toNat)).toNat =
          lowerCode loweringRuns c.toNat := by
        rw [Char.ofNat, dif_pos (isValidChar_lowerCode c)]
        rfl
      have hlow : c.toNat < 0x800 → lowerCode loweringRuns c.toNat < 0x10000 := lowerCode_lt
      rw [utf8Len_cons, utf8Len_nil]
      omega

theorem utf8Len_snakeFrom_le (prev : Option Char) (barred : Bool) (s : List Char) :
    utf8Len (snakeFrom prev barred s) ≤ 2 * utf8Len s := by
  have hbar : utf8Len ['_'] = 1 := rfl
  induction s generalizing prev barred with
  | nil => simp [snakeFrom]
  | cons c s ih =>
    have hlower := utf8Len_lowerChar_lt c
    have hpos := c.utf8Size_pos
    have hfalse := ih (some c) false
    have htrue := ih (some c) true
    have hrest := ih (some c) (c == '_')
    unfold snakeFrom
    split
    · dsimp only
      rw [utf8Len_append, utf8Len_append, utf8Len_cons]
      split
      · omega
      · rw [utf8Len_nil]
        omega
    · split
      · rw [utf8Len_append, utf8Len_cons]
        split
        · rw [utf8Len_nil]
          omega
        · omega
      · rw [utf8Len_cons, utf8Len_cons]
        omega

theorem size_snake_le (base : List Char) : (snake base).utf8ByteSize ≤ 2 * utf8Len base := by
  rw [snake, utf8ByteSize_ofList]
  exact utf8Len_snakeFrom_le none false base

/-- Sanitizing adds a bar at most. -/
theorem utf8Len_sanitize_le (s : List Char) : utf8Len (sanitize s) ≤ utf8Len s + 1 := by
  have hbar : ('_' : Char).utf8Size = 1 := rfl
  have hmap : utf8Len (s.map fun c => if isPart c then c else '_') ≤ utf8Len s := by
    induction s with
    | nil => simp
    | cons c s ih =>
      have := c.utf8Size_pos
      rw [List.map_cons, utf8Len_cons, utf8Len_cons]
      split <;> omega
  have htrim : ∀ t : List Char, utf8Len (trimBars t) ≤ utf8Len t := fun t =>
    utf8Len_le_of_infix
    ((isPrefix_dropEndWhile _ _).isInfix.trans (List.dropWhile_suffix _).isInfix)
  unfold sanitize
  split
  · omega
  · have := htrim (s.map fun c => if isPart c then c else '_')
    dsimp only
    split
    · rw [utf8Len_cons, hbar]
      omega
    · omega

/-! ## Names from types -/

theorem utf8Len_baseName_le (ty : List Char) : utf8Len (baseName ty) ≤ utf8Len ty :=
  utf8Len_le_of_infix (isInfix_baseName ty)

theorem size_plural_le (n : String) : (plural n).utf8ByteSize ≤ n.utf8ByteSize + 5 := by
  have h1 : "_list".utf8ByteSize = 5 := rfl
  have h2 : "s".utf8ByteSize = 1 := rfl
  unfold plural
  split <;> rw [utf8ByteSize_append] <;> omega

theorem size_ordinaryName_le (base : List Char) :
    (ordinaryName base).utf8ByteSize ≤ 2 * utf8Len base + 5 := by
  have hvalue : "value".utf8ByteSize = 5 := rfl
  have hsnake := size_snake_le base
  unfold ordinaryName
  split
  · omega
  · have hsan := utf8Len_sanitize_le (snakeCase base)
    rw [snake, utf8ByteSize_ofList] at hsnake
    rw [utf8ByteSize_ofList]
    omega

/-- The constructor of a type, a bracket and an argument stand beside each other in it. -/
theorem utf8Len_of_mem_arguments {ty arg : List Char} (h : arg ∈ arguments ty) :
    utf8Len (baseName ty) + 1 + utf8Len arg ≤ utf8Len ty := by
  have hreferent := utf8Len_le_of_infix (isInfix_referent ty)
  have hbase : utf8Len (baseName ty) ≤ utf8Len ((referent ty).takeWhile (· ≠ '<')) :=
    utf8Len_le_of_infix
      ((isInfix_trim _).trans ((isSuffix_lastSegment _).isInfix.trans (isInfix_trim _)))
  have hsplit := congrArg utf8Len ((referent ty).takeWhile_append_dropWhile (p := (· ≠ '<')))
  rw [utf8Len_append] at hsplit
  unfold arguments at h
  split at h
  · exact absurd h List.not_mem_nil
  · next c r hr =>
    have hpos := c.utf8Size_pos
    split at h
    · next p hp =>
      have harg : utf8Len arg ≤ utf8Len r :=
        utf8Len_le_of_infix
          ((isInfix_of_mem_splitOutside h).trans (parts_of_splitAtClose hp).1.isInfix)
      rw [hr, utf8Len_cons] at hsplit
      omega
    · exact absurd h List.not_mem_nil

theorem size_coinName_le (ty : List Char) :
    (coinName (baseName ty) (arguments ty)).utf8ByteSize ≤ 2 * utf8Len ty := by
  have hbase := size_snake_le (baseName ty)
  have hty := utf8Len_baseName_le ty
  unfold coinName
  split
  · omega
  · next arg rest harg =>
    have hall := utf8Len_of_mem_arguments (harg ▸ List.mem_cons_self : arg ∈ arguments ty)
    have hheld := size_snake_le (baseName arg)
    have harg := utf8Len_baseName_le arg
    have hbar : "_".utf8ByteSize = 1 := rfl
    dsimp only
    split
    · omega
    · rw [utf8ByteSize_append, utf8ByteSize_append]
      omega

theorem size_plainName_le (ty : List Char) : (plainName ty).utf8ByteSize ≤ 2 * utf8Len ty + 5 := by
  fun_induction plainName ty with
  | case1 ty base h => exact (size_coinName_le ty).trans (Nat.le_add_right _ 5)
  | case2 | case3 =>
    have : "items".utf8ByteSize = 5 := rfl
    have : "bytes".utf8ByteSize = 5 := rfl
    omega
  | case4 ty base h hv elem rest he hu ih =>
    have hall := utf8Len_of_mem_arguments (he ▸ List.mem_cons_self : elem ∈ arguments ty)
    have hplural := size_plural_le (plainName elem)
    have hvector : utf8Len (baseName ty) = 6 := by
      rw [← utf8ByteSize_ofList]
      exact congrArg utf8ByteSize hv
    omega
  | case5 ty base h hv name hn =>
    have hwell : ∀ p ∈ wellKnown, p.2.utf8ByteSize ≤ 2 * p.1.utf8ByteSize := by decide
    obtain ⟨l₁, l₂, he, -⟩ := List.lookup_eq_some_iff.1 hn
    have hname : name.utf8ByteSize ≤ 2 * (ofList (baseName ty)).utf8ByteSize :=
      hwell (ofList base, name) (by rw [he]; simp)
    have hty := utf8Len_baseName_le ty
    rw [utf8ByteSize_ofList] at hname
    omega
  | case6 ty base h hv hn =>
    have hty := utf8Len_baseName_le ty
    exact (size_ordinaryName_le (baseName ty)).trans (by omega)

/-- **A name takes at most twice the bytes of its type and a few more.** -/
theorem size_nameFor_le (ty : List Char) (ctx : NameContext) :
    (nameFor ty ctx).utf8ByteSize ≤ 2 * utf8Len ty + 16 := by
  have hname : ((impliedName ty ctx).getD (plainName ty)).utf8ByteSize ≤ 2 * utf8Len ty + 15 := by
    cases hi : impliedName ty ctx with
    | none =>
      have := size_plainName_le ty
      rw [Option.getD_none]
      omega
    | some name =>
      have hall : ∀ n ∈ impliedNames, n.utf8ByteSize ≤ 15 := by decide
      have := hall name (mem_impliedNames hi)
      rw [Option.getD_some]
      omega
  have hbar : "_".utf8ByteSize = 1 := rfl
  unfold nameFor escapeReserved
  split
  · rw [utf8ByteSize_append]
    omega
  · omega

theorem size_parameterBase_le (h : FunctionHeader) (i : Nat) (p : Parameter) :
    (Machine.parameterBase h i p).utf8ByteSize ≤
      max (2 * p.paramType.utf8ByteSize + 16) (p.name.utf8ByteSize + 1) := by
  unfold Machine.parameterBase
  dsimp only
  split
  · have := size_nameFor_le p.paramType.toList
      { function := some h.name
        position := (h.parameters.take i).countP fun q => baseName q.paramType.toList =
        baseName p.paramType.toList }
    rw [utf8Len_toList] at this
    omega
  · have := utf8Len_sanitize_le p.name.toList
    rw [utf8Len_toList] at this
    rw [utf8ByteSize_ofList]
    omega

/-- A slot without a name is named after its type or its number. -/
theorem size_localBase_le (slot : Slot) {ty : Option (List Char)} {n : Nat}
    (hty : ∀ t ∈ ty, utf8Len t ≤ n) (hslot : slot.number < wordLimit) :
    (Machine.localBase slot ty).utf8ByteSize ≤ 2 * n + 23 := by
  have harg : "arg".utf8ByteSize = 3 := rfl
  have hloc : "loc".utf8ByteSize = 3 := rfl
  cases ty with
  | some t =>
    have h1 := size_nameFor_le t {}
    have h2 := hty t rfl
    show (nameFor t {}).utf8ByteSize ≤ _
    omega
  | none =>
    have hnumber := size_toString_le hslot
    cases slot <;> simp only [Machine.localBase, Slot.number, utf8ByteSize_append] at hnumber ⊢ <;>
      omega

/-! ## The table of names -/

namespace LocalNames

variable {t : LocalNames} {n : Nat}

/-- What holds of the table throughout a run in which names are made from texts of a bounded size:
numbers are handed out in order, and no name of a slot has more than `n` bytes. -/
structure Sized (n : Nat) (t : LocalNames) : Prop where
  inOrder : t.supply.InOrder
  size_le : ∀ slot name, t.get? slot = some name → name.utf8ByteSize ≤ n

/-- A fresh name is its base with a bar and a number at most. -/
theorem size_fresh_le {a : NameSupply} (ha : a.InOrder) (hused : a.used.length < wordLimit)
    (base : String) :
    (a.fresh base).1.utf8ByteSize ≤ max base.utf8ByteSize 5 + 21 := by
  have hbar : "_".utf8ByteSize = 1 := rfl
  have hbase : (NameSupply.baseOf base).utf8ByteSize ≤ max base.utf8ByteSize 5 := by
    have hvalue : "value".utf8ByteSize = 5 := rfl
    unfold NameSupply.baseOf
    split <;> omega
  obtain ⟨k, hk, -, hle⟩ := NameSupply.fresh_eq ha base
  rw [hk, NameSupply.candidate]
  split
  · omega
  · have hnumber := size_toString_le (Nat.lt_of_le_of_lt hle hused)
    rw [utf8ByteSize_append, utf8ByteSize_append]
    omega

theorem sized_empty (n : Nat) : ({} : LocalNames).Sized n :=
  ⟨NameSupply.inOrder_empty, fun slot name h => absurd h (by simp [get?])⟩

theorem Sized.bind (ht : t.Sized n) (hused : t.supply.used.length < wordLimit) (slot : Slot)
    {base : String} (hbase : base.utf8ByteSize + 26 ≤ n) :
    (t.bind slot base).1.utf8ByteSize ≤ n ∧ (t.bind slot base).2.Sized n ∧
      (t.bind slot base).2.supply.used.length ≤ t.supply.used.length + 1 := by
  have hname : (t.bind slot base).1.utf8ByteSize ≤ n := by
    cases hs : t.get? slot with
    | some name =>
      rw [bind_of_get? hs]
      exact ht.size_le slot name hs
    | none =>
      have := size_fresh_le ht.inOrder hused base
      rw [bind_of_get?_none hs]
      dsimp only
      omega
  refine ⟨hname, ⟨?_, fun s name hs => ?_⟩, ?_⟩
  · cases hs : t.get? slot with
    | some name => rw [bind_of_get? hs]; exact ht.inOrder
    | none => rw [bind_of_get?_none hs]; exact ht.inOrder.fresh base
  · rw [get?_bind] at hs
    split at hs
    · rwa [← Option.some.inj hs]
    · exact ht.size_le s name hs
  · cases hs : t.get? slot with
    | some name => rw [bind_of_get? hs]; exact Nat.le_succ _
    | none => rw [bind_of_get?_none hs]; exact Nat.le_refl _

/-- Slots bound one after the other. -/
theorem Sized.foldl_bind (ht : t.Sized n) {bs : List (Slot × String)}
    (hused : t.supply.used.length + bs.length ≤ wordLimit)
    (hbs : ∀ b ∈ bs, b.2.utf8ByteSize + 26 ≤ n) :
    (bs.foldl (fun t b => (t.bind b.1 b.2).2) t).Sized n ∧
      (bs.foldl (fun t b => (t.bind b.1 b.2).2) t).supply.used.length ≤
        t.supply.used.length + bs.length := by
  induction bs generalizing t with
  | nil => exact ⟨ht, Nat.le_refl _⟩
  | cons b bs ih =>
    rw [List.length_cons] at hused ⊢
    obtain ⟨-, hsized, hone⟩ := ht.bind (by omega) b.1 (hbs b List.mem_cons_self)
    obtain ⟨hall, hlength⟩ := ih hsized (by omega) fun c hc => hbs c (List.mem_cons_of_mem b hc)
    exact ⟨hall, by rw [List.foldl_cons]; omega⟩

/-- The names of results have few bytes, and leave the slots as they are. -/
theorem Sized.temporaries (ht : t.Sized n) {count : Nat}
    (hused : t.supply.used.length + count ≤ wordLimit) (base : String) :
    (∀ name ∈ (t.temporaries base count).1, name.utf8ByteSize ≤ max base.utf8ByteSize 5 + 21) ∧
      (t.temporaries base count).2.Sized n ∧
      (t.temporaries base count).2.supply.used.length = t.supply.used.length + count := by
  induction count generalizing t with
  | zero => exact ⟨fun name h => absurd h List.not_mem_nil, ht, rfl⟩
  | succ count ih =>
    have hone : (t.temporary base).2.Sized n := ⟨ht.inOrder.fresh base, ht.size_le⟩
    have hlength : (t.temporary base).2.supply.used.length = t.supply.used.length + 1 := rfl
    obtain ⟨hnames, hsized, hcount⟩ := ih hone (by omega)
    refine ⟨fun name h => ?_, hsized, ?_⟩
    · rcases List.mem_cons.1 h with rfl | h
      · exact size_fresh_le ht.inOrder (by omega) base
      · exact hnames name h
    · show ((t.temporary base).2.temporaries base count).2.supply.used.length = _
      omega

end LocalNames

end PseudoMove
