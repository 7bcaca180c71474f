import PseudoMove.Proofs.Accounts
import Mathlib.Data.List.Dedup

/-!
# The ranking of families

The most common families are the first of a ranking: by decreasing count, and by name where counts
are equal (`Tally.Outranks`).  The sort compares counts alone.  That ties are in the order of the
names is the doing of the tally, which is in this order, and of the sort, which keeps the order of
entries that it takes for equal.

* `Tally.filter_ranked` — the entries with one count stand in a ranked tally as they stood in the
  tally;
* `Tally.IsRanking.unique` — names have one ranking;
* `Tally.Counts.isRanking` — a ranked tally is the ranking of the names that it counted;
* `ModuleStatistics.topFamilies_eq_take` — what is listed after any functions were
  recorded, and what is left out.
-/

namespace PseudoMove

namespace Tally

variable {t : Tally} {names : List String}

/-- An entry comes before another in a ranking: it has the larger count, or the same
count and the lesser name. -/
def Outranks (a b : String × Nat) : Prop := b.2 < a.2 ∨ a.2 = b.2 ∧ a.1 < b.1

/-- The ranking of some names: each name with the number of times it occurs, the entries in the
order of their ranks. -/
structure IsRanking (names : List String) (all : List (String × Nat)) : Prop where
  mem_iff : ∀ e, e ∈ all ↔ e.1 ∈ names ∧ e.2 = names.count e.1
  ordered : all.Pairwise Outranks

theorem Outranks.ne {a b : String × Nat} (h : Outranks a b) : a ≠ b := by
  rintro rfl
  rcases h with h | ⟨-, h⟩
  · exact lt_irrefl _ h
  · exact lt_irrefl _ h

theorem Outranks.asymm {a b : String × Nat} (h : Outranks a b) : ¬Outranks b a := by
  rintro (h' | ⟨h', hname'⟩)
  · rcases h with h | ⟨h, -⟩ <;> omega
  · rcases h with h | ⟨-, hname⟩
    · omega
    · exact lt_asymm hname hname'

theorem Outranks.le {a b : String × Nat} (h : Outranks a b) : b.2 ≤ a.2 := by
  rcases h with h | ⟨h, -⟩ <;> omega

/-! ### Names have one ranking -/

namespace IsRanking

variable {all other : List (String × Nat)}

theorem nodup (h : IsRanking names all) : all.Nodup := h.ordered.imp Outranks.ne

/-- **Two rankings of the same names are equal.** -/
theorem unique (h : IsRanking names all) (h' : IsRanking names other) : other = all := by
  have hperm : other.Perm all := by
    rw [List.perm_ext_iff_of_nodup h'.nodup h.nodup]
    intro e
    rw [h'.mem_iff, h.mem_iff]
  refine hperm.eq_of_pairwise ?_ h'.ordered h.ordered
  intro a b _ _ hab hba
  exact absurd hba hab.asymm

/-- No name is ranked twice. -/
theorem nodup_names (h : IsRanking names all) : (all.map (·.1)).Nodup := by
  refine h.nodup.map_on ?_
  intro a ha b hb hname
  refine Prod.ext hname ?_
  rw [((h.mem_iff a).1 ha).2, ((h.mem_iff b).1 hb).2, hname]

/-- As many entries as there are different names. -/
theorem length_eq (h : IsRanking names all) : all.length = names.dedup.length := by
  have hperm : (all.map (·.1)).Perm names.dedup := by
    rw [List.perm_ext_iff_of_nodup h.nodup_names (List.nodup_dedup names)]
    intro name
    rw [List.mem_map, List.mem_dedup]
    constructor
    · rintro ⟨e, he, rfl⟩
      exact ((h.mem_iff e).1 he).1
    · intro hname
      exact ⟨(name, names.count name), (h.mem_iff _).2 ⟨hname, rfl⟩, rfl⟩
  rw [← hperm.length_eq, List.length_map]

/-- What comes later in a ranking has no larger count. -/
theorem count_le_of_notMem (h : IsRanking names all) {n : Nat} {e : String × Nat}
    (he : e ∈ all.take n) {name : String} (hname : name ∉ (all.take n).map (·.1)) :
    names.count name ≤ e.2 := by
  by_cases hmem : name ∈ names
  · have hin : (name, names.count name) ∈ all := (h.mem_iff _).2 ⟨hmem, rfl⟩
    rw [← List.take_append_drop n all] at hin
    have hlater : (name, names.count name) ∈ all.drop n := by
      rcases List.mem_append.1 hin with hlisted | hlater
      · exact absurd (List.mem_map_of_mem hlisted) hname
      · exact hlater
    have hordered := h.ordered
    rw [← List.take_append_drop n all, List.pairwise_append] at hordered
    exact (hordered.2.2 e he _ hlater).le
  · rw [List.count_eq_zero_of_not_mem hmem]
    exact Nat.zero_le _

end IsRanking

/-! ### A ranked tally -/

/-- The entries of a tally say what is counted in it. -/
theorem Increases.mem_iff (ht : t.Increases) (hpos : ∀ e ∈ t, 0 < e.2) (e : String × Nat) :
    e ∈ t ↔ count t e.1 = e.2 ∧ 0 < e.2 := by
  induction t with
  | nil =>
    simp only [List.not_mem_nil, count_nil, false_iff]
    omega
  | cons d t ih =>
    obtain ⟨hlt, ht⟩ := List.pairwise_cons.1 ht
    have htail : e ∈ t ↔ count t e.1 = e.2 ∧ 0 < e.2 :=
      ih ht fun e he => hpos e (List.mem_cons_of_mem _ he)
    obtain ⟨k, n⟩ := d
    by_cases hk : e.1 = k
    · have hnot : e ∉ t := fun he => (hlt e he).ne' hk
      have hn : 0 < n := hpos _ List.mem_cons_self
      obtain ⟨name, m⟩ := e
      obtain rfl : name = k := hk
      simp only [List.mem_cons, hnot, or_false, Prod.mk.injEq, true_and, count_cons_self]
      omega
    · rw [count_cons_of_ne hk, ← htail, List.mem_cons]
      refine or_iff_right ?_
      rintro rfl
      exact hk rfl

/-- The entries of a tally are the names that it counted, with their counts. -/
theorem Counts.mem_iff (h : t.Counts names) (e : String × Nat) :
    e ∈ t ↔ e.1 ∈ names ∧ e.2 = names.count e.1 := by
  rw [h.increases.mem_iff h.pos, h.count_eq, ← List.count_pos_iff]
  omega

/-- The order by count alone is transitive and total. -/
theorem byCount_trans (a b c : String × Nat) (hab : decide (b.2 ≤ a.2) = true)
    (hbc : decide (c.2 ≤ b.2) = true) :
    decide (c.2 ≤ a.2) = true := by
  simp only [decide_eq_true_eq] at *
  omega

theorem byCount_total (a b : String × Nat) : (decide (b.2 ≤ a.2) || decide (a.2 ≤ b.2)) = true := by
  simp only [Bool.or_eq_true, decide_eq_true_eq]
  omega

theorem ranked_perm (t : Tally) : t.ranked.Perm t := List.mergeSort_perm _ _

/-- **Ties keep their order**: the entries with one count are ranked as they stood. -/
theorem filter_ranked (t : Tally) (n : Nat) :
    (t.ranked.filter fun e => e.2 = n) = t.filter fun e => e.2 = n := by
  have htied : (t.filter fun e => e.2 = n).Pairwise fun a b => decide (b.2 ≤ a.2) = true := by
    refine List.pairwise_of_forall_mem_list fun a ha b hb => ?_
    simp only [List.mem_filter, decide_eq_true_eq] at ha hb ⊢
    omega
  have hsublist : (t.filter fun e => e.2 = n).Sublist t.ranked :=
    List.sublist_mergeSort byCount_trans byCount_total htied List.filter_sublist
  have hfilter := hsublist.filter fun e => decide (e.2 = n)
  rw [List.filter_filter] at hfilter
  simp only [Bool.and_self] at hfilter
  exact (hfilter.eq_of_length ((t.ranked_perm.filter _).length_eq.symm)).symm

/-- A ranked tally is in the order of ranks. -/
theorem Increases.ranked (ht : t.Increases) : t.ranked.Pairwise Outranks := by
  have hcounts : t.ranked.Pairwise fun a b => decide (b.2 ≤ a.2) = true :=
    List.pairwise_mergeSort byCount_trans byCount_total t
  rw [List.pairwise_iff_forall_sublist]
  intro a b hab
  have hle : b.2 ≤ a.2 := of_decide_eq_true (List.pairwise_iff_forall_sublist.1 hcounts hab)
  rcases Nat.lt_or_eq_of_le hle with hlt | heq
  · exact .inl hlt
  · -- a tie, which the tally decided
    have htie : [a, b].Sublist t := by
      have hfilter := hab.filter fun e => decide (e.2 = a.2)
      rw [filter_ranked] at hfilter
      simp only [List.filter_cons, heq, decide_true, if_true, List.filter_nil] at hfilter
      exact hfilter.trans List.filter_sublist
    exact .inr ⟨heq.symm, List.pairwise_iff_forall_sublist.1 ht htie⟩

/-- **A ranked tally is the ranking of what it counted.** -/
theorem Counts.isRanking (h : t.Counts names) : IsRanking names t.ranked where
  mem_iff e := by rw [t.ranked_perm.mem_iff, h.mem_iff]
  ordered := h.increases.ranked

/-- Names that occur equally often are ranked in their own order. -/
example :
    (addAll [] ["stack", "call", "stack", "branch"]).ranked =
      [("stack", 2), ("branch", 1), ("call", 1)] := by
  cbv

end Tally

namespace ModuleStatistics

/-- The families of all instructions that were recorded. -/
def recordedFamilies (fs : List (FunctionStatistics × List Instruction)) : List String :=
  fs.flatMap fun f => families f.2

/-- **The most common families are the first of the ranking.** After any functions were
recorded there is one ranking of the families of their instructions, and its first entries are
listed, `n` of them or all. No family is listed twice, and none that is left out occurs more
often than one that is listed. -/
theorem topFamilies_eq_take (fs : List (FunctionStatistics × List Instruction)) (n : Nat) :
    (∃ all, Tally.IsRanking (recordedFamilies fs) all ∧
      (∀ other, Tally.IsRanking (recordedFamilies fs) other → other = all) ∧
      (recorded fs).topFamilies n = all.take (min n (recordedFamilies fs).dedup.length)) ∧
    (((recorded fs).topFamilies n).map (·.1)).Nodup ∧
    ∀ e ∈ (recorded fs).topFamilies n, ∀ family, family ∉ ((recorded fs).topFamilies n).map (·.1) →
      (recordedFamilies fs).count family ≤ e.2 := by
  have hranking : Tally.IsRanking (recordedFamilies fs) (recorded fs).familyFrequency.ranked := by
    rw [recorded_eq]
    exact (Tally.counts_addAll _).isRanking
  refine ⟨⟨_, hranking, fun other => hranking.unique, ?_⟩, ?_, ?_⟩
  · rw [← hranking.length_eq, ← List.take_eq_take_min]
    rfl
  · exact hranking.nodup_names.sublist ((List.take_sublist _ _).map _)
  · intro e he family hfamily
    exact hranking.count_le_of_notMem he hfamily

end ModuleStatistics

end PseudoMove
