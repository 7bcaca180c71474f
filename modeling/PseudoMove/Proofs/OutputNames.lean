import Mathlib.Tactic.Common
import PseudoMove.OutputPath

/-!
# Names of output files

The output of an input in a directory is named after the input alone, by its stem and the ending of
the format.  A path that is joined from a directory and a name has the name as its last component,
and what stands in front of it depends on the directory alone: so outputs in one directory have the
same path only if their inputs have the same stem.

* `Path.IsEntryName` — what a file can be called;
* `Path.splitOn_join` — the pieces of a path in a directory;
* `Path.fileName?_join`, `Path.parent?_join` — its last component, and the path without it;
* `OutputPath.inDirectory_inj` — when two inputs have one output.
-/

namespace PseudoMove

/-! ## Pieces -/

namespace Path

theorem not_mem_of_mem_splitOn {c : Char} {s p : List Char} (h : p ∈ s.splitOn c) : c ∉ p := by
  induction s generalizing p with
  | nil =>
    rw [List.splitOn_nil, List.mem_singleton] at h
    rw [h]
    exact List.not_mem_nil
  | cons x s ih =>
    obtain ⟨q, qs, hq⟩ := List.exists_cons_of_ne_nil (List.splitOn_ne_nil c s)
    rw [List.splitOn_cons_eq_if_modifyHead] at h
    split at h
    · obtain rfl | h := List.mem_cons.1 h
      · exact List.not_mem_nil
      · exact ih h
    · next hx =>
      rw [hq, List.modifyHead_cons] at h
      rw [hq] at ih
      obtain rfl | h := List.mem_cons.1 h
      · simp only [List.mem_cons, not_or]
        exact ⟨fun e => hx (by simp [e]), ih List.mem_cons_self⟩
      · exact ih (List.mem_cons_of_mem _ h)

/-- What a file can be called: a text without a separator that is not empty and stands for no
directory on the way. -/
structure IsEntryName (n : List Char) : Prop where
  separator : '/' ∉ n
  nonempty : n ≠ []
  here : n ≠ ['.']
  up : n ≠ ['.', '.']

theorem IsEntryName.isSignificant {n : List Char} (h : IsEntryName n) : isSignificant n := by
  simp [Path.isSignificant, h.nonempty, h.here]

theorem IsEntryName.ofPiece {n : List Char} (h : IsEntryName n) : ofPiece n = .name n := if_neg h.up

/-- The pieces in front of the last one in a path that is joined from a directory and a name. -/
def leading (d : List Char) : List (List Char) :=
  if d = [] then [] else if d.getLast? = some '/' then d.dropLast.splitOn '/' else d.splitOn '/'

theorem leading_concat (e : List Char) : leading (e ++ ['/']) = e.splitOn '/' := by
  simp [leading]

theorem leading_eq_nil_iff {d : List Char} : leading d = [] ↔ d = [] := by
  unfold leading
  split
  · simpa
  · split <;> simpa [List.splitOn_ne_nil]

theorem filter_leading (d : List Char) :
    (leading d).filter (· ≠ []) = (d.splitOn '/').filter (· ≠ []) := by
  by_cases hl : d.getLast? = some '/'
  · obtain ⟨e, rfl⟩ := List.getLast?_eq_some_iff.1 hl
    rw [leading_concat, List.splitOn_append_cons_self, List.filter_append, List.splitOn_nil]
    simp
  · unfold leading
    split
    · next hd => simp [hd]
    · rfl

theorem splitOn_join (d : List Char) {n : List Char} (h : '/' ∉ n) :
    (join d n).splitOn '/' = leading d ++ [n] := by
  have hn : n.splitOn '/' = [n] := List.splitOn_eq_singleton h
  by_cases hd : d = []
  · rw [hd, join, if_pos (.inl rfl), List.nil_append, hn, leading_eq_nil_iff.2 rfl, List.nil_append]
  · by_cases hl : d.getLast? = some '/'
    · obtain ⟨e, rfl⟩ := List.getLast?_eq_some_iff.1 hl
      rw [join, if_pos (.inr hl), leading_concat, List.append_assoc, List.singleton_append,
        List.splitOn_append_cons_self, hn]
    · rw [join, if_neg (by tauto), leading, if_neg hd, if_neg hl, List.splitOn_append_cons_self, hn]

/-- A file in a directory has its name as its last component. -/
theorem fileName?_join (d : List Char) {n : List Char} (h : IsEntryName n) :
    fileName? (join d n) = some n := by
  have hlast : (components (join d n)).getLast? = some (.name n) := by
    unfold components
    rw [splitOn_join d h.separator]
    cases leading d with
    | nil => simp [h.nonempty, h.here, h.ofPiece]
    | cons first rest => simp [List.filter_append, h.isSignificant, h.ofPiece]
  rw [fileName?, hlast]

/-- The path of the directory in which the files of `d` lie. -/
def container (d : List Char) : List Char := if d = [] then [] else ofPieces (dropVoid (leading d))

theorem dropEndWhile_concat {rest : List (List Char)} {n : List Char} (h : isSignificant n) :
    dropVoid.dropEndWhile (rest ++ [n]) = rest ++ [n] := by
  simp [dropVoid.dropEndWhile, h]

/-- What remains of the path of a file without its name is the same for all files of a directory. -/
theorem parent?_join (d : List Char) {n : List Char} (h : IsEntryName n) :
    parent? (join d n) = some (container d) := by
  unfold parent? container
  rw [splitOn_join d h.separator]
  by_cases hd : d = []
  · rw [if_pos hd, leading_eq_nil_iff.2 hd]
    simp [dropVoid, dropVoid.dropEndWhile, h.nonempty]
  · rw [if_neg hd]
    obtain ⟨first, rest, hlead⟩ := List.exists_cons_of_ne_nil (mt leading_eq_nil_iff.1 hd)
    have hvoid : dropVoid (first :: rest ++ [n]) = first :: (rest ++ [n]) :=
      congrArg (first :: ·) (dropEndWhile_concat h.isSignificant)
    rw [hlead, hvoid]
    split
    · next heq => cases heq
    · next heq => simp at heq
    · rw [← List.cons_append, List.dropLast_concat]

/-! ## The directory of a file -/

theorem eq_dropVoid_append (ps : List (List Char)) :
    ∃ V, (∀ x ∈ V, isSignificant x = false) ∧ ps = dropVoid ps ++ V := by
  cases ps with
  | nil => exact ⟨[], by simp, rfl⟩
  | cons first rest =>
    refine ⟨(rest.reverse.takeWhile fun p => !isSignificant p).reverse, fun x hx => ?_, ?_⟩
    · simpa using List.all_eq_true.1 List.all_takeWhile x (List.mem_reverse.1 hx)
    · rw [dropVoid, dropVoid.dropEndWhile, List.cons_append, ← List.reverse_append,
        List.takeWhile_append_dropWhile, List.reverse_reverse]

theorem separator_not_mem_leading {d p : List Char} (h : p ∈ leading d) : '/' ∉ p := by
  unfold leading at h
  split at h
  · exact absurd h List.not_mem_nil
  · split at h <;> exact not_mem_of_mem_splitOn h

theorem dropVoid_ne_nil {ps : List (List Char)} (h : ps ≠ []) : dropVoid ps ≠ [] := by
  obtain ⟨first, rest, rfl⟩ := List.exists_cons_of_ne_nil h
  exact List.cons_ne_nil _ _

theorem splitOn_ofPieces {ps : List (List Char)} (hps : ∀ p ∈ ps, '/' ∉ p) (hne : ps ≠ []) :
    (ofPieces ps).splitOn '/' = if ps = [[]] then [[], []] else ps := by
  unfold ofPieces
  split
  · rfl
  · exact List.splitOn_intercalate '/' hps hne

theorem splitOn_container {d : List Char} (hd : d ≠ []) :
    (container d).splitOn '/' =
      if dropVoid (leading d) = [[]] then [[], []] else dropVoid (leading d) := by
  obtain ⟨V, -, hV⟩ := eq_dropVoid_append (leading d)
  rw [container, if_neg hd]
  refine splitOn_ofPieces (fun p hp => separator_not_mem_leading (d := d) ?_)
    (dropVoid_ne_nil (mt leading_eq_nil_iff.1 hd))
  rw [hV]
  exact List.mem_append_left V hp

theorem container_ne_nil {d : List Char} (hd : d ≠ []) : container d ≠ [] := by
  intro h
  have hsplit := splitOn_container hd
  rw [h, List.splitOn_nil] at hsplit
  split at hsplit
  · cases hsplit
  · next hne => exact hne hsplit.symm

/-- The pieces of a directory are those of the path that its files are said to lie in, and
then nothing but dots. -/
theorem filter_splitOn_container {d : List Char} (hd : d ≠ []) :
    ∃ V : List (List Char), (∀ x ∈ V, x = ['.']) ∧
      (d.splitOn '/').filter (· ≠ []) = ((container d).splitOn '/').filter (· ≠ []) ++ V := by
  obtain ⟨V, hvoid, hV⟩ := eq_dropVoid_append (leading d)
  refine ⟨V.filter (· ≠ []), fun x hx => ?_, ?_⟩
  · obtain ⟨hmem, hne⟩ := List.mem_filter.1 hx
    have := hvoid x hmem
    simp only [isSignificant, Bool.and_eq_false_iff, decide_eq_false_iff_not, not_not] at this
    exact this.resolve_left (by simpa using hne)
  · rw [← filter_leading, splitOn_container hd]
    conv => lhs; rw [hV, List.filter_append]
    split
    · next h => rw [h]; rfl
    · rfl

theorem head?_splitOn {s : List Char} :
    (s.splitOn '/').head? = some [] ↔ s = [] ∨ s.head? = some '/' := by
  cases s with
  | nil => simp
  | cons c s =>
    obtain ⟨q, qs, hq⟩ := List.exists_cons_of_ne_nil (List.splitOn_ne_nil '/' s)
    rw [List.splitOn_cons_eq_if_modifyHead, hq]
    split
    · next hc => simpa using hc
    · next hc => simpa using hc

theorem head?_leading {d : List Char} (hd : d ≠ []) :
    (leading d).head? = some [] ↔ d.head? = some '/' := by
  by_cases hl : d.getLast? = some '/'
  · obtain ⟨e, rfl⟩ := List.getLast?_eq_some_iff.1 hl
    rw [leading_concat, head?_splitOn]
    cases e <;> simp
  · rw [leading, if_neg hd, if_neg hl, head?_splitOn]
    simp [hd]

theorem head?_container {d : List Char} (hd : d ≠ []) :
    (container d).head? = some '/' ↔ d.head? = some '/' := by
  obtain ⟨first, rest, hlead⟩ := List.exists_cons_of_ne_nil (mt leading_eq_nil_iff.1 hd)
  rw [← head?_leading hd, hlead]
  have hhead := head?_splitOn (s := container d)
  rw [splitOn_container hd, hlead] at hhead
  rw [show (container d = [] ∨ (container d).head? = some '/') ↔ (container d).head? = some '/' by
    simp [container_ne_nil hd]] at hhead
  rw [← hhead]
  split
  · next h => simp [(List.cons.inj h).1]
  · rfl

/-! ## Stems -/

theorem not_mem_of_fileName? {p n : List Char} (h : fileName? p = some n) : '/' ∉ n := by
  have hlast : (components p).getLast? = some (.name n) := by
    unfold fileName? at h
    split at h
    · next heq => rw [heq, Option.some.inj h]
    · cases h
  have hpiece {q : List Char} (hq : ofPiece q = .name n) : q = n := by
    unfold ofPiece at hq
    split at hq
    · cases hq
    · exact Component.name.inj hq
  have hmem := List.mem_of_getLast? hlast
  unfold components at hmem
  split at hmem
  · exact absurd hmem List.not_mem_nil
  · next first rest hsplit =>
    suffices n ∈ p.splitOn '/' from not_mem_of_mem_splitOn this
    rw [hsplit]
    obtain hfirst | hrest := List.mem_append.1 hmem
    · have : ofPiece first = .name n := by
        split at hfirst
        · split at hfirst <;> simp at hfirst
        · split at hfirst
          · simp at hfirst
          · exact (List.mem_singleton.1 hfirst).symm
      exact List.mem_cons.2 (.inl (hpiece this).symm)
    · obtain ⟨q, hq, hqn⟩ := List.mem_map.1 hrest
      exact List.mem_cons_of_mem _ (hpiece hqn ▸ (List.mem_filter.1 hq).1)

theorem splitName_fst_subset (n : List Char) : (splitName n).1 ⊆ n := by
  unfold splitName
  dsimp only
  split
  · exact List.Subset.refl n
  · next c before hdrop =>
    split
    · exact List.Subset.refl n
    · intro x hx
      have hmem : x ∈ c :: before := List.mem_cons_of_mem _ (List.mem_reverse.1 hx)
      exact List.mem_reverse.1 ((List.dropWhile_suffix _).subset (hdrop ▸ hmem))

end Path

namespace OutputPath

theorem not_mem_stemFor (input : String) : '/' ∉ (stemFor input).toList := by
  unfold stemFor
  split
  · decide
  · cases hstem : Path.stem? input.toList with
    | none => decide
    | some s =>
      obtain ⟨n, hn, rfl⟩ := Option.map_eq_some_iff.1 hstem
      rw [Option.map_some, Option.getD_some, String.toList_ofList]
      exact fun h => Path.not_mem_of_fileName? hn (Path.splitName_fst_subset n h)

/-- The name of the output file of an input. -/
def outputName (input : String) (format : ReportFormat) : List Char :=
  (stemFor input ++ "." ++ format.extension).toList

theorem toList_inDirectory (input directory : String) (format : ReportFormat) :
    (inDirectory input directory format).toList =
      Path.join directory.toList (outputName input format) :=
  String.toList_ofList

theorem isEntryName_outputName (input : String) (format : ReportFormat) :
    Path.IsEntryName (outputName input format) := by
  have hname : outputName input format =
      (stemFor input).toList ++ '.' :: format.extension.toList := by
    simp [outputName]
  refine ⟨?_, ?_, ?_, ?_⟩
  · rw [hname, List.mem_append, not_or]
    exact ⟨not_mem_stemFor input, by cases format <;> decide⟩
  · rw [hname]
    simp
  -- the ending is too long for a name of dots
  all_goals
    intro h
    have := congrArg List.length (hname.symm.trans h)
    cases format <;> simp [ReportFormat.extension] at this

theorem outputName_inj {i j : String} {format : ReportFormat} :
    outputName i format = outputName j format ↔ stemFor i = stemFor j := by
  refine ⟨fun h => ?_, fun h => by rw [outputName, h, outputName]⟩
  have := String.toList_inj.1 h
  simpa [String.append_assoc] using this

/-- Two inputs have the same path for their output, as a path, just if they have the same stem. -/
theorem components_inDirectory_inj {i j directory : String} {format : ReportFormat} :
    Path.components (inDirectory i directory format).toList =
      Path.components (inDirectory j directory format).toList ↔
        stemFor i = stemFor j := by
  refine ⟨fun h => ?_, fun h => by rw [inDirectory, h, inDirectory]⟩
  have hname (k : String) : Path.fileName? (inDirectory k directory format).toList =
      some (outputName k format) := by
    rw [toList_inDirectory, Path.fileName?_join _ (isEntryName_outputName k format)]
  have hsame := hname i
  rw [Path.fileName?, h, ← Path.fileName?, hname, Option.some.injEq] at hsame
  exact (outputName_inj.1 hsame).symm

/-- And so it is for the texts of the paths. -/
theorem inDirectory_inj {i j directory : String} {format : ReportFormat} :
    inDirectory i directory format = inDirectory j directory format ↔ stemFor i = stemFor j :=
  ⟨fun h => components_inDirectory_inj.1 (by rw [h]), fun h => by rw [inDirectory, h, inDirectory]⟩

end OutputPath

end PseudoMove
