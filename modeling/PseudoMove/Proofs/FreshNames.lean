import PseudoMove.NameSupply
import Mathlib

/-!
# Fresh names

A request tries the candidates of its base one after the other, from the counter of the base on, and
takes the first that is free (`Search`).  Of one more candidate than there are names in use, one is
free, so the search ends (`search_firstFree`).  It does not begin with the first candidate, but all
before the counter are in use (`InOrder`): what it finds is the least free one (`fresh_least`).
-/

namespace PseudoMove.NameSupply

/-! ## Candidates -/

theorem candidate_succ (base : String) (k : Nat) :
    candidate base (k + 1) = base ++ "_" ++ toString (k + 1) := rfl

theorem candidate_of_pos (base : String) {k : Nat} (hk : 1 ≤ k) :
    candidate base k = base ++ "_" ++ toString k := by
  obtain ⟨k, rfl⟩ := Nat.exists_eq_add_of_le' hk
  exact candidate_succ base k

theorem candidate_injective {base : String} {j k : Nat} (h : candidate base j = candidate base k) :
    j = k := by
  have longer : ∀ n : Nat, base ≠ base ++ "_" ++ toString n := by
    intro n e
    have e := congrArg (fun s : String => s.toList.length) e
    simp only [String.toList_append, List.length_append] at e
    have : "_".toList.length = 1 := rfl
    omega
  rcases j with _ | j <;> rcases k with _ | k
  · rfl
  · exact absurd h (longer (k + 1))
  · exact absurd h.symm (longer (j + 1))
  · rw [candidate_succ, candidate_succ] at h
    have h := congrArg String.toList h
    rw [String.toList_append, String.toList_append (t := toString (k + 1)),
      List.append_cancel_left_eq, Nat.toString_eq_repr, Nat.toString_eq_repr, Nat.toList_repr,
      Nat.toList_repr] at h
    have h := congrArg (fun ds => Nat.ofDigitChars 10 ds 0) h
    simpa only [Nat.ofDigitChars_ten_toDigits] using h

/-- Of one more candidate than there are names in use, one is free. -/
theorem exists_candidate_notMem (used : List String) (base : String) (k : Nat) :
    ∃ j, k ≤ j ∧ j ≤ k + used.length ∧ candidate base j ∉ used := by
  by_contra hno
  have hsub : (List.range' k (used.length + 1)).map (candidate base) ⊆ used := by
    intro n hn
    obtain ⟨j, hj, rfl⟩ := List.mem_map.1 hn
    rw [List.mem_range'_1] at hj
    by_contra hnot
    exact hno ⟨j, hj.1, by omega, hnot⟩
  have hnd : ((List.range' k (used.length + 1)).map (candidate base)).Nodup := by
    refine List.pairwise_map.2 ((List.nodup_range' 1).imp ?_)
    intro i j hij e
    exact hij (candidate_injective e)
  have := hnd.length_le_of_subset hsub
  rw [List.length_map, List.length_range'] at this
  omega

/-- If all candidates below a number are in use, the number is at most the number of names in
use. -/
theorem le_length_of_candidates {used : List String} {base : String} {k : Nat}
    (h : ∀ j < k, candidate base j ∈ used) : k ≤ used.length := by
  have hnodup : ((List.range k).map (candidate base)).Nodup :=
    List.nodup_range.map fun _ _ => candidate_injective
  have hsub : (List.range k).map (candidate base) ⊆ used := by
    intro n hn
    obtain ⟨j, hj, rfl⟩ := List.mem_map.1 hn
    exact h j (List.mem_range.1 hj)
  have := hnodup.length_le_of_subset hsub
  rwa [List.length_map, List.length_range] at this

/-! ## The search -/

/-- The search that begins with one number of a base and ends with another: candidates
in use are passed over. -/
inductive Search (used : List String) (base : String) : Nat → Nat → Prop
  | found {k : Nat} (free : candidate base k ∉ used) : Search used base k k
  | next {k j : Nat} (taken : candidate base k ∈ used)
    (rest : Search used base (k + 1) j) : Search used base k j

section

variable {used : List String} {base : String} {k j : Nat}

theorem Search.notMem (h : Search used base k j) : candidate base j ∉ used := by
  induction h with
  | found free => exact free
  | next _ _ ih => exact ih

theorem Search.mem (h : Search used base k j) {i : Nat} (hk : k ≤ i) (hj : i < j) :
    candidate base i ∈ used := by
  induction h with
  | found => omega
  | @next k j taken rest ih =>
    rcases Nat.eq_or_lt_of_le hk with rfl | hlt
    · exact taken
    · exact ih hlt hj

theorem search_of_free {tries : Nat} (hkj : k ≤ j) (hj : j ≤ k + tries)
    (hfree : candidate base j ∉ used) :
    Search used base k (firstFree used base tries k) := by
  induction tries generalizing k with
  | zero =>
    obtain rfl : j = k := by omega
    exact .found hfree
  | succ tries ih =>
    unfold firstFree
    split
    · next hk =>
      have hne : k ≠ j := by
        rintro rfl
        exact hfree hk
      exact .next hk (ih (by omega) (by omega))
    · next hk => exact .found hk

/-- **The search ends.** -/
theorem search_firstFree (used : List String) (base : String) (k : Nat) :
    Search used base k (firstFree used base used.length k) := by
  obtain ⟨j, h1, h2, h3⟩ := exists_candidate_notMem used base k
  exact search_of_free h1 h2 h3

end

/-! ## Handing out names -/

/-- **A name handed out was not in use.** -/
theorem fresh_notMem (a : NameSupply) (base : String) : (a.fresh base).1 ∉ a.used :=
  (search_firstFree a.used (baseOf base) (a.counter (baseOf base))).notMem

theorem used_fresh (a : NameSupply) (base : String) :
    (a.fresh base).2.used = (a.fresh base).1 :: a.used := rfl

theorem counter_fresh (a : NameSupply) (base b : String) :
    (a.fresh base).2.counter b =
      if b = baseOf base then
        firstFree a.used (baseOf base) a.used.length (a.counter (baseOf base)) + 1
      else a.counter b := by
  show (List.lookup b ((baseOf base, _) :: a.counters.filter (·.1 ≠ baseOf base))).getD 0 = _
  split
  · next h =>
    subst h
    simp
  · next h =>
    have hne : (b == baseOf base) = false := beq_false_of_ne h
    simp only [List.lookup, hne]
    rw [lookup_filter_ne h]
    rfl

/-! ## Numbers in order -/

variable {a : NameSupply}

/-- All candidates below a counter are in use. -/
def InOrder (a : NameSupply) : Prop := ∀ base k, k < a.counter base → candidate base k ∈ a.used

theorem InOrder.mem (ha : a.InOrder) {base : String} {i j : Nat}
    (h : Search a.used base (a.counter base) j) (hi : i < j) :
    candidate base i ∈ a.used := by
  by_cases hc : i < a.counter base
  · exact ha base i hc
  · exact h.mem (by omega) hi

/-- **A fresh name is the first candidate of its base that is free**, and its number counts names in
use. -/
theorem fresh_eq (ha : a.InOrder) (base : String) :
    ∃ k, (a.fresh base).1 = candidate (baseOf base) k ∧
      (∀ j < k, candidate (baseOf base) j ∈ a.used) ∧
      k ≤ a.used.length := by
  have hbelow : ∀ j < firstFree a.used (baseOf base) a.used.length (a.counter (baseOf base)),
      candidate (baseOf base) j ∈ a.used := fun _ => ha.mem (search_firstFree _ _ _)
  exact ⟨_, rfl, hbelow, le_length_of_candidates hbelow⟩

theorem InOrder.fresh (ha : a.InOrder) (base : String) : (a.fresh base).2.InOrder := by
  intro b k hk
  rw [used_fresh, List.mem_cons]
  rw [counter_fresh] at hk
  split at hk
  · next hb =>
    subst hb
    rcases Nat.eq_or_lt_of_le (Nat.le_of_lt_succ hk) with rfl | hlt
    · exact Or.inl rfl
    · exact Or.inr (ha.mem (search_firstFree _ _ _) hlt)
  · exact Or.inr (ha b k hk)

theorem inOrder_empty : ({} : NameSupply).InOrder := by
  intro base k hk
  exact absurd hk (Nat.not_lt_zero k)

/-! ## A sequence of requests -/

/-- The supply after some requests, one after the other. -/
def request (a : NameSupply) (bases : List String) : NameSupply :=
  bases.foldl (fun a base => (a.fresh base).2) a

theorem request_cons (a : NameSupply) (base : String) (bases : List String) :
    a.request (base :: bases) = (a.fresh base).2.request bases := rfl

theorem InOrder.request (ha : a.InOrder) (bases : List String) : (a.request bases).InOrder := by
  induction bases generalizing a with
  | nil => exact ha
  | cons base bases ih => exact ih (ha.fresh base)

/-- Every request puts one name into use. -/
theorem length_used_request (a : NameSupply) (bases : List String) :
    (a.request bases).used.length = a.used.length + bases.length := by
  induction bases generalizing a with
  | nil => rfl
  | cons base bases ih =>
    rw [request_cons, ih, used_fresh, List.length_cons, List.length_cons]
    omega

/-- The supply after some requests to an empty one. -/
def afterRequests (bases : List String) : NameSupply := request {} bases

/-- The least name of a base that is free: the base itself if it is, and otherwise the base with the
least number behind it that makes it free. -/
def IsLeastFree (used : List String) (base name : String) : Prop :=
  base ∉ used ∧ name = base ∨
    base ∈ used ∧ ∃ k, IsLeast {k | 1 ≤ k ∧ base ++ "_" ++ toString k ∉ used} k ∧
    name = base ++ "_" ++ toString k

/-- The first candidate that is free is the least free name. -/
theorem isLeastFree_candidate {used : List String} {base : String} {k : Nat}
    (hfree : candidate base k ∉ used) (hbelow : ∀ i < k, candidate base i ∈ used) :
    IsLeastFree used base (candidate base k) := by
  cases k with
  | zero => exact .inl ⟨hfree, rfl⟩
  | succ k =>
    refine .inr ⟨hbelow 0 (Nat.succ_pos k), k + 1, ⟨⟨Nat.succ_pos k, hfree⟩, ?_⟩, rfl⟩
    rintro i ⟨hi, hnot⟩
    by_contra hlt
    rw [← candidate_of_pos base hi] at hnot
    exact hnot (hbelow i (by omega))

/-- **A request gets the least name that is free.** After any requests, the search that the next
one begins at the counter of its base ends, at a number that is not larger than the number of
requests before.  The name found is the least of the base that is free, and it alone is in use
afterwards that was not before. -/
theorem fresh_least (bases : List String) (base : String) :
    ∃ name after, (afterRequests bases).fresh base = (name, after) ∧
      (∃ k ≤ bases.length, name = candidate (baseOf base) k ∧
        Search (afterRequests bases).used (baseOf base)
          ((afterRequests bases).counter (baseOf base)) k) ∧
      IsLeastFree (afterRequests bases).used (baseOf base) name ∧
      name ∉ (afterRequests bases).used ∧
      ∀ n, after.isUsed n = true ↔ n = name ∨ (afterRequests bases).isUsed n = true := by
  have hlength : (afterRequests bases).used.length = bases.length :=
    (length_used_request {} bases).trans (Nat.zero_add _)
  have horder : (afterRequests bases).InOrder := inOrder_empty.request bases
  generalize afterRequests bases = a at hlength horder ⊢
  have hsearch := search_firstFree a.used (baseOf base) (a.counter (baseOf base))
  have hbelow : ∀ i < firstFree a.used (baseOf base) a.used.length (a.counter (baseOf base)),
      candidate (baseOf base) i ∈ a.used := fun _ => horder.mem hsearch
  refine ⟨_, _, rfl, ⟨_, hlength ▸ le_length_of_candidates hbelow, rfl, hsearch⟩,
    isLeastFree_candidate hsearch.notMem hbelow, hsearch.notMem, ?_⟩
  intro n
  simp only [isUsed, List.contains_iff_mem, List.mem_cons]

/-- A name that was asked for with its number is passed over. -/
example : ((afterRequests ["coin_1", "coin"]).fresh "coin").1 = "coin_2" := by decide

end PseudoMove.NameSupply
