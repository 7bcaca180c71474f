import PseudoMove.Proofs.OutputSize
import PseudoMove.Proofs.InstructionLine
import PseudoMove.Proofs.CallRemark
import PseudoMove.Proofs.StraightLine

/-!
# How much a short body can write

Two ways in which output outgrows the listing.  A vector unpacked and packed again is written down
once for each of its elements, so rounds of the two multiply its size each time, whatever the limit
on a single count is (`exists_stack_repack`).  A call with many results spends a comma of the line
on two names (`size_run_results`).
-/

namespace PseudoMove

open Text Fragment TypeText PseudoMove.Bracket
open String (ofList utf8ByteSize utf8ByteSize_append utf8ByteSize_ofList utf8Len utf8Len_nil
  utf8Len_cons utf8Len_append utf8Len_toList)

/-! ## Sizes from below -/

theorem size_intercalate_ge (sep : String) (ts : List String) :
    totalSize ts ≤ (sep.intercalate ts).utf8ByteSize := by
  induction ts with
  | nil => exact Nat.zero_le _
  | cons t ts ih =>
    cases ts with
    | nil => simp
    | cons u us =>
      rw [String.intercalate_cons_cons, utf8ByteSize_append, utf8ByteSize_append, totalSize_cons]
      omega

theorem le_totalSize {ts : List String} {n : Nat} (h : ∀ t ∈ ts, n ≤ t.utf8ByteSize) :
    ts.length * n ≤ totalSize ts := by
  induction ts with
  | nil => simp
  | cons t ts ih =>
    have h1 := h t List.mem_cons_self
    have h2 := ih fun u hu => h u (List.mem_cons_of_mem t hu)
    rw [totalSize_cons, List.length_cons, Nat.succ_mul]
    omega

namespace Machine

/-! ## Packing and unpacking in turn -/

theorem totalSize_elements_ge (v : String) (n : Nat) :
    n * v.utf8ByteSize ≤ totalSize (elements v n) := by
  unfold elements
  induction n with
  | zero => simp
  | succ n ih =>
    rw [List.range_succ, List.map_append, totalSize_append, Nat.succ_mul]
    simp only [List.map_cons, List.map_nil, totalSize_cons, utf8ByteSize_append]
    omega

section Repack

variable {m : Machine} {unpack pack : Instruction} {count : Nat}

theorem length_elements (v : String) (n : Nat) : (elements v n).length = n := by
  rw [elements, List.length_map, List.length_range]

/-- A vector unpacked is written down once for each of its elements. -/
theorem stack_unpack (hu : unpack.opcode = .vecUnpack)
    (hcu : vectorCount m.options.maxVectorElements unpack = count) {v : String} {s : List String}
    (hs : m.stack = v :: s) : (m.step unpack).stack = (elements v count).reverse ++ s := by
  obtain ⟨hpops, -, hpushes⟩ := m.effect_vecUnpack hu
  have hoperand : m.operand 0 = v := by rw [operand, hs]; rfl
  show (m.effect unpack).pushes.reverse ++ m.stack.drop (m.effect unpack).pops = _
  rw [hpops, hpushes, hs, hoperand, hcu]
  rfl

/-- A vector unpacked and packed again is a vector of these elements. -/
theorem stack_repack (hu : unpack.opcode = .vecUnpack) (hp : pack.opcode = .vecPack)
    (hcu : vectorCount m.options.maxVectorElements unpack = count)
    (hcp : vectorCount m.options.maxVectorElements pack = count) {v : String} {s : List String}
    (hs : m.stack = v :: s) :
    ((m.step unpack).step pack).stack =
      ("vector[" ++ commaList (elements v count) ++ "]") :: s := by
  have hspread := stack_unpack hu hcu hs
  have hn : ((m.step unpack).elementCount pack).count = (elements v count).length := by
    rw [count_elementCount, length_elements]
    exact hcp
  have heffect : ((m.step unpack).effect pack).pops = (elements v count).length ∧
      ((m.step unpack).effect pack).pushes =
        ["vector[" ++ commaList (elements v count) ++ "]"] := by
    rw [effect, hp]
    dsimp only
    rw [hn, StraightLine.operands_of_stack hspread]
    exact ⟨rfl, rfl⟩
  show ((m.step unpack).effect pack).pushes.reverse ++
    (m.step unpack).stack.drop ((m.step unpack).effect pack).pops = _
  rw [heffect.1, heffect.2, (StraightLine.taken hspread).2]
  rfl

/-- **Nothing bounds the product of element counts**: `k` rounds take `count ^ k` times the
bytes of the first vector. -/
theorem exists_stack_repack (hu : unpack.opcode = .vecUnpack) (hp : pack.opcode = .vecPack)
    (hcu : vectorCount m.options.maxVectorElements unpack = count)
    (hcp : vectorCount m.options.maxVectorElements pack = count) {v : String} {s : List String}
    (hs : m.stack = v :: s) (k : Nat) :
    ∃ w, ((List.replicate k [unpack, pack]).flatten.foldl step m).stack = w :: s ∧
      count ^ k * v.utf8ByteSize ≤ w.utf8ByteSize := by
  induction k generalizing m v with
  | zero => exact ⟨v, hs, by simp⟩
  | succ k ih =>
    obtain ⟨w, hw, hsize⟩ :=
      ih (m := (m.step unpack).step pack) hcu hcp (stack_repack hu hp hcu hcp hs)
    refine ⟨w, hw, Nat.le_trans ?_ hsize⟩
    have h1 := totalSize_elements_ge v count
    have h2 := size_intercalate_ge ", " (elements v count)
    rw [Nat.pow_succ, Nat.mul_assoc]
    refine Nat.mul_le_mul_left _ ?_
    rw [utf8ByteSize_append, utf8ByteSize_append]
    show _ ≤ _ + (", ".intercalate (elements v count)).utf8ByteSize + _
    omega

theorem size_le_step_pop {pop : Instruction} (hpop : pop.opcode = .pop) {w : String}
    {s : List String} (hs : m.stack = w :: s) (hw : 1 < w.utf8ByteSize) :
    w.utf8ByteSize ≤ totalSize (m.step pop).emitted := by
  have hoperand : m.operand 0 = w := by rw [operand, hs]; rfl
  have hne : w ≠ placeholder := by
    rintro rfl
    exact absurd hw (by decide)
  have hstatement : (m.effect pop).statement = some ("_ = " ++ w ++ ";") := by
    rw [effect, hpop]
    dsimp only
    rw [hoperand, if_neg hne]
  show _ ≤ totalSize ((m.effect pop).statement.toList ++ m.emitted)
  rw [hstatement, Option.toList_some, List.singleton_append, totalSize_cons, utf8ByteSize_append,
    utf8ByteSize_append]
  omega

end Repack

/-- Each of the counts is within the limit, and what is written is not within a multiple of it. -/
theorem size_run_repack :
    let h : FunctionHeader := { name := "f" }
    let options : MachineOptions := { maxVectorElements := 10 }
    16 * (totalSize h.texts + totalSize repackLines + 1) * (options.maxVectorElements + 1) *
        ((Listing.body repackLines).instructions.length + 1) <
      totalSize (interpret h (Listing.body repackLines) options).function.statements +
        totalSize ((start h options).run (Listing.body repackLines)).stack := by
  intro h options
  let load : Instruction := ⟨0, .ldInt .u128, none, some "340282366920938463463374607431768211455"⟩
  let unpack : Instruction := ⟨0, .vecUnpack, some "10", none⟩
  let pack : Instruction := ⟨0, .vecPack, some "10", none⟩
  let pop : Instruction := ⟨0, .pop, none, none⟩
  have hbody : Listing.body repackLines =
      ⟨[], load :: (List.replicate 4 [unpack, pack]).flatten ++ [pop]⟩ := by decide +kernel
  have hlines : totalSize h.texts + totalSize repackLines = 167 := by decide +kernel
  have hload : ((start h options).step load).stack =
      ["340282366920938463463374607431768211455"] := by decide +kernel
  have hunpack : vectorCount options.maxVectorElements unpack = 10 := by decide +kernel
  have hpack : vectorCount options.maxVectorElements pack = 10 := by decide +kernel
  obtain ⟨w, hw, hsize⟩ := exists_stack_repack rfl rfl hunpack hpack hload 4
  have hnumber : "340282366920938463463374607431768211455".utf8ByteSize = 39 := by decide +kernel
  rw [hnumber] at hsize
  have hwritten := size_le_step_pop (rfl : pop.opcode = .pop) hw (by omega)
  have hrun : (start h options).run (Listing.body repackLines) =
      ((List.replicate 4 [unpack, pack]).flatten.foldl step
        ((start h options).step load)).step pop := by
    rw [hbody, run, List.foldl_nil, List.cons_append, List.foldl_cons, List.foldl_append,
      List.foldl_cons, List.foldl_nil]
  have hstatements : (interpret h (Listing.body repackLines) options).function.statements =
      ((start h options).run (Listing.body repackLines)).emitted.reverse := rfl
  have hlength : (Listing.body repackLines).instructions.length = 10 := by rw [hbody]; rfl
  have hlimit : options.maxVectorElements = 10 := rfl
  rw [hstatements, totalSize_reverse, hrun, hlines, hlength, hlimit]
  omega

end Machine

/-! ## Many results -/

/-- A return type of `n` results, of which nothing but the commas is written. -/
def manyTypes (n : Nat) : List Char := '(' :: List.replicate n ',' ++ [')']

/-- The remark of a call with `n` results. -/
def manyRemark (n : Nat) : List Char := ['f', '(', ')', ':'] ++ manyTypes n

/-- The line of a call with `n` results. -/
def manyLine (n : Nat) : String :=
  ofList (['0', ':', 'C', 'a', 'l', 'l'] ++ '(' :: (manyRemark n ++ [')']))

theorem mem_manyTypes {n : Nat} {c : Char} (h : c ∈ manyTypes n) : c = '(' ∨ c = ',' ∨ c = ')' := by
  rw [manyTypes, List.cons_append, List.mem_cons, List.mem_append, List.mem_singleton] at h
  rcases h with rfl | h | rfl
  · exact Or.inl rfl
  · exact Or.inr (Or.inl (List.eq_of_mem_replicate h))
  · exact Or.inr (Or.inr rfl)

theorem isBlank_manyRemark {n : Nat} {c : Char} (h : c ∈ manyRemark n) : isBlank c = false := by
  rcases List.mem_append.1 h with h | h
  · simp only [List.mem_cons, List.not_mem_nil, or_false] at h
    rcases h with rfl | rfl | rfl | rfl <;> decide
  · rcases mem_manyTypes h with rfl | rfl | rfl <;> decide

theorem trim_manyTypes (n : Nat) : trim (manyTypes n) = manyTypes n :=
  trim_of_forall fun c h => by rcases mem_manyTypes h with rfl | rfl | rfl <;> decide

theorem splitAtClose_commas (n : Nat) :
    splitAtClose 0 (List.replicate n ',' ++ [')']) = some (List.replicate n ',', []) := by
  induction n with
  | zero => rfl
  | succ n ih =>
    rw [List.replicate_succ, List.cons_append, splitAtClose, ih]
    rfl

theorem topPieces_commas (n : Nat) :
    topPieces ',' 0 (List.replicate n ',') = List.replicate (n + 1) [] := by
  induction n with
  | zero => rfl
  | succ n ih =>
    rw [List.replicate_succ, topPieces, show depthAfter ',' 0 = 0 from rfl, if_pos ⟨rfl, rfl⟩, ih]
    rfl

/-- A list of `n + 1` empty parts has `n` parts, as the last one is left out. -/
theorem length_splitOutside_commas (n : Nat) :
    (splitOutside ',' (List.replicate n ',')).length = n := by
  have htrim : trim (List.replicate n ',') = List.replicate n ',' :=
    trim_of_forall fun c hc => by rw [List.eq_of_mem_replicate hc]; rfl
  unfold splitOutside
  rw [htrim]
  cases n with
  | zero => rfl
  | succ n =>
    have hmap : (List.replicate (n + 1 + 1) ([] : List Char)).map trim =
        List.replicate (n + 1 + 1) [] := by
      rw [List.map_replicate]
      rfl
    have hlast : (List.replicate (n + 1 + 1) ([] : List Char)).getLast? = some [] := by
      simp [List.getLast?_replicate]
    have hne : List.replicate (n + 1) ',' ≠ [] := List.cons_ne_nil _ _
    rw [if_neg hne, topPieces_commas, hmap]
    dsimp only
    rw [if_pos hlast, List.length_dropLast, List.length_replicate, Nat.add_sub_cancel]

theorem resultCount_manyTypes {n : Nat} (hn : 0 < n) : resultCount (manyTypes n) = n := by
  have hne : ¬(manyTypes n = [] ∨ manyTypes n = ['(', ')']) := by
    obtain ⟨k, rfl⟩ := Nat.exists_eq_add_of_lt hn
    simp [manyTypes, List.replicate_succ]
  unfold resultCount
  dsimp only
  rw [trim_manyTypes, if_neg hne, manyTypes, List.cons_append]
  have henclosed : enclosed? (List.replicate n ',' ++ [')']) = some (List.replicate n ',', []) :=
    splitAtClose_commas n
  split
  · next r hr =>
    rw [← (List.cons.inj hr).2, henclosed]
    exact length_splitOutside_commas n
  · next h => exact absurd rfl (h _)

/-- The callee that the remark names. -/
def manyCallee (n : Nat) : Callee where
  path := "f"
  typeArguments := []
  parameterTypes := []
  returnType := ofList (manyTypes n)

theorem resultCount_manyCallee {n : Nat} (hn : 0 < n) : (manyCallee n).resultCount = n := by
  rw [Callee.resultCount, manyCallee, String.toList_ofList, resultCount_manyTypes hn]

theorem read?_manyRemark (n : Nat) : Callee.read? (manyRemark n) = some (manyCallee n) := by
  have hret : (manyCallee n).returnType.toList = manyTypes n := String.toList_ofList
  have hne : (manyCallee n).returnType ≠ "" := by
    intro h
    rw [h] at hret
    exact absurd hret (by simp [manyTypes])
  have hlegible : (manyCallee n).Legible :=
    ⟨by simp [manyCallee], by simp [manyCallee, Callee.isPathPart, isBlank],
      by simp [manyCallee], by simp [manyCallee], by rw [hret, trim_manyTypes]⟩
  have hspelled : (manyCallee n).Spelled ("f".toList ++
      ([] ++ '(' :: ([] ++ ')' :: ':' :: ([] ++ (manyCallee n).returnType.toList)))) :=
    .mk .none .nil (.typed hne (by decide : [].all isBlank = true))
  rw [hret] at hspelled
  exact Callee.read?_of_spelled hlegible hspelled

/-- The instruction that the line spells. -/
def manyCall (n : Nat) : Instruction :=
  { offset := 0, opcode := .call, remark := some (ofList (manyRemark n)) }

theorem body_manyLine (n : Nat) : Listing.body [manyLine n] = ⟨[], [manyCall n]⟩ := by
  have hlegible : (manyCall n).Legible := by
    refine ⟨by show 0 < wordLimit; decide, by simp [manyCall], ?_⟩
    rintro t ⟨⟩
    rw [String.toList_ofList]
    exact ⟨trim_of_forall fun c => isBlank_manyRemark,
      fun h => absurd (isBlank_manyRemark h) (by decide)⟩
  have hopcode : Opcode.ofMnemonic "Call".toList = .call := by decide
  have hread :=
    Listing.instruction?_line hlegible (by decide : Listing.IsIdentifier "Call".toList) hopcode
      (l := {}) ⟨by decide, by decide, trivial, by decide⟩
  have hline : (manyLine n).toList = Listing.Layout.line {} "Call".toList (manyCall n) := by
    rw [manyLine, String.toList_ofList]
    simp [Listing.Layout.line, manyCall, Listing.operandText, Listing.RemarkStyle.write]
  rw [Listing.body, List.map_singleton, hline, Listing.bodyLine_of_instruction? hread]
  rfl

theorem size_manyLine (n : Nat) : (manyLine n).utf8ByteSize = n + 14 := by
  have htypes : utf8Len (manyTypes n) = n + 2 := by
    rw [utf8Len_of_forall fun c h => by rcases mem_manyTypes h with rfl | rfl | rfl <;> rfl]
    simp [manyTypes]
  have hopcode : utf8Len ['0', ':', 'C', 'a', 'l', 'l'] = 6 := rfl
  have hpath : utf8Len ['f', '(', ')', ':'] = 4 := rfl
  have hopen : ('(' : Char).utf8Size = 1 := rfl
  have hclose : utf8Len [')'] = 1 := rfl
  have hremark : utf8Len ('(' :: (manyRemark n ++ [')'])) = n + 8 := by
    rw [utf8Len_cons, utf8Len_append, manyRemark, utf8Len_append]
    omega
  rw [manyLine, utf8ByteSize_ofList, utf8Len_append]
  omega

theorem callee?_manyCall (n : Nat) : callee? (manyCall n) = some (manyCallee n) := by
  rw [callee?, manyCall, Option.bind_some, String.toList_ofList, read?_manyRemark]

/-! ### Their names -/

namespace LocalNames

/-- All numbers of a base from `k` on are free, and `k` is the next to be tried. -/
def FreeFrom (base : String) (k : Nat) (t : LocalNames) : Prop :=
  t.supply.counter base = k ∧ ∀ j ≥ k, NameSupply.candidate base j ∉ t.supply.used

variable {t : LocalNames} {base : String} {k : Nat}

theorem FreeFrom.temporary (hbase : base ≠ "") (ht : t.FreeFrom base k) :
    (t.temporary base).1 = NameSupply.candidate base k ∧
      (t.temporary base).2.FreeFrom base (k + 1) := by
  have hbaseOf : NameSupply.baseOf base = base := if_neg hbase
  have hfirst : ∀ tries, NameSupply.firstFree t.supply.used base tries k = k := by
    intro tries
    cases tries with
    | zero => rfl
    | succ tries => rw [NameSupply.firstFree, if_neg (ht.2 k (Nat.le_refl k))]
  have hname : (t.temporary base).1 = NameSupply.candidate base k := by
    show NameSupply.candidate (NameSupply.baseOf base) _ = _
    rw [hbaseOf, ht.1, hfirst]
  refine ⟨hname, ?_, fun j hj hmem => ?_⟩
  · show (t.supply.fresh base).2.counter base = k + 1
    rw [NameSupply.counter_fresh, hbaseOf, if_pos rfl, ht.1, hfirst]
  · have hused : (t.temporary base).2.supply.used = (t.temporary base).1 :: t.supply.used := rfl
    rw [hused, hname, List.mem_cons] at hmem
    rcases hmem with h | h
    · have := NameSupply.candidate_injective h
      omega
    · exact ht.2 j (by omega) h

/-- The names of results get the next numbers, one after the other. -/
theorem FreeFrom.temporaries (hbase : base ≠ "") (ht : t.FreeFrom base k) (n : Nat) :
    (t.temporaries base n).1 = (List.range' k n).map (NameSupply.candidate base) := by
  induction n generalizing t k with
  | zero => rfl
  | succ n ih =>
    obtain ⟨hname, hnext⟩ := ht.temporary hbase
    show (t.temporary base).1 :: ((t.temporary base).2.temporaries base n).1 = _
    rw [ih hnext, hname, List.range'_succ, List.map_cons]

end LocalNames

/-- Of the first `n` names of a base, all but the first `10 ^ d` have more than `d` digits. -/
theorem totalSize_candidates_ge (base : String) {d : Nat} (hd : 0 < d) (n : Nat) :
    n * (base.utf8ByteSize + d + 2) ≤
      totalSize ((List.range' 0 (10 ^ d + n)).map (NameSupply.candidate base)) := by
  rw [← List.range'_append_1, List.map_append, totalSize_append, Nat.zero_add]
  refine Nat.le_trans ?_ (Nat.le_add_left _ _)
  have hlarge : ∀ t ∈ (List.range' (10 ^ d) n).map (NameSupply.candidate base),
      base.utf8ByteSize + d + 2 ≤ t.utf8ByteSize := by
    intro t ht
    obtain ⟨j, hj, rfl⟩ := List.mem_map.1 ht
    have hle : 10 ^ d ≤ j := (List.mem_range'_1.1 hj).1
    have hpos : 0 < 10 ^ d := Nat.pow_pos (by decide)
    have hdigits := lt_size_toString hd hle
    have hbar : "_".utf8ByteSize = 1 := rfl
    rw [NameSupply.candidate, if_neg (by omega), utf8ByteSize_append, utf8ByteSize_append]
    omega
  have h := le_totalSize hlarge
  rwa [List.length_map, List.length_range'] at h

namespace Machine

/-- A call with several results writes the names that it binds, and pushes them. -/
theorem size_callEffect_ge (m : Machine) {f : Callee} (hf : 2 ≤ f.resultCount) :
    2 * totalSize (m.locals.temporaries "result" f.resultCount).1 ≤
      totalSize (m.callEffect f).statement.toList + totalSize (m.callEffect f).pushes := by
  unfold callEffect
  dsimp only
  split
  · next h => omega
  · next h => omega
  · have hcomma := size_intercalate_ge ", " (m.locals.temporaries "result" f.resultCount).1
    simp only [Option.toList_some, totalSize_cons, totalSize_nil, utf8ByteSize_append, commaList]
    omega

/-- **A call with very many results** writes two names for each comma of its line, so its output has
more than `48` times the bytes of its listing. -/
theorem size_run_results {n : Nat} (hn : 10 ^ 19 ≤ n) :
    let h : FunctionHeader := { name := "f" }
    let options : MachineOptions := { maxVectorElements := 0 }
    16 * (totalSize h.texts + totalSize [manyLine n] + 1) * (options.maxVectorElements + 1) *
        ((Listing.body [manyLine n]).instructions.length + 2) <
      totalSize (interpret h (Listing.body [manyLine n]) options).function.statements +
        totalSize ((start h options).run (Listing.body [manyLine n])).stack := by
  intro h options
  have hfree : (start h options).locals.FreeFrom "result" 0 :=
    ⟨rfl, fun j _ h => absurd h List.not_mem_nil⟩
  have hlarge := totalSize_candidates_ge "result" (by decide : 0 < 17) (n - 10 ^ 17)
  rw [Nat.add_sub_cancel' (by omega), ← hfree.temporaries (by decide)] at hlarge
  have hwritten :=
    size_callEffect_ge (start h options) (f := manyCallee n)
      (by rw [resultCount_manyCallee] <;> omega)
  rw [resultCount_manyCallee (by omega)] at hwritten
  have hrun : (start h options).run (Listing.body [manyLine n]) =
      (start h options).apply ((start h options).callEffect (manyCallee n)) := by
    rw [body_manyLine, run, List.foldl_nil, List.foldl_cons, List.foldl_nil, step,
      effect_call _ rfl (callee?_manyCall n)]
  have hemitted : totalSize (interpret h (Listing.body [manyLine n]) options).function.statements =
      totalSize ((start h options).callEffect (manyCallee n)).statement.toList := by
    show totalSize ((start h options).run (Listing.body [manyLine n])).emitted.reverse = _
    rw [totalSize_reverse, hrun]
    exact congrArg totalSize (List.append_nil _)
  have hstack : totalSize ((start h options).run (Listing.body [manyLine n])).stack =
      totalSize ((start h options).callEffect (manyCallee n)).pushes := by
    rw [hrun, apply]
    dsimp only
    rw [totalSize_append, totalSize_reverse, show (start h options).stack = [] from rfl,
      List.drop_nil, totalSize_nil, Nat.add_zero]
  have hname : "result".utf8ByteSize = 6 := rfl
  have htexts : totalSize h.texts = 1 := by decide
  have hlength : (Listing.body [manyLine n]).instructions.length = 1 := by rw [body_manyLine]; rfl
  have hlimit : options.maxVectorElements = 0 := rfl
  rw [hname] at hlarge
  rw [hemitted, hstack, htexts, hlength, hlimit, totalSize_cons, totalSize_nil, size_manyLine]
  omega

end Machine

end PseudoMove
