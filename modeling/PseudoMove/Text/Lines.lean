import PseudoMove.Text.Blank
/-!
# Lines and words

How a text is cut into lines, and a line into words. A newline, with or without a carriage return
before it, ends a line; what follows the last newline is a line only if it is not empty.
-/

namespace PseudoMove.Text

/-- A text without one carriage return at its end. -/
def dropReturn (s : List Char) : List Char :=
  if s.getLast? = some '\r' then s.dropLast else s

/-- The lines that the pieces between newlines stand for: every piece but the last was ended by a
newline and loses a carriage return; the last one is kept as it is, unless it is empty. -/
def linesOfPieces : List (List Char) → List (List Char)
  | [] => []
  | [rest] => if rest.isEmpty then [] else [rest]
  | p :: q :: ps => dropReturn p :: linesOfPieces (q :: ps)

/-- The lines of a text. -/
def lines (s : List Char) : List (List Char) := linesOfPieces (s.splitOn '\n')

/-- The words of a text: its longest runs of characters that are not blank. -/
def words (s : List Char) : List (List Char) := (s.splitOnP isBlank).filter (· ≠ [])

/-- One more line in front. -/
theorem lines_append_newline {l : List Char} (hl : '\n' ∉ l) (s : List Char) :
    lines (l ++ '\n' :: s) = dropReturn l :: lines s := by
  have h : (l ++ '\n' :: s).splitOn '\n' = [l] ++ s.splitOn '\n' := by
    unfold List.splitOn
    rw [List.splitOnP_append_cons _ _ (by simp)]
    congr 1
    exact List.splitOnP_eq_singleton fun c hc => by
      simpa using fun e : c = '\n' => hl (e ▸ hc)
  rw [lines, h]
  obtain ⟨q, ps, hq⟩ := List.exists_cons_of_ne_nil (List.splitOnP_ne_nil (· == '\n') s)
  have hq : s.splitOn '\n' = q :: ps := hq
  rw [lines, hq]
  rfl

/-- The last line of a text has no newline behind it. -/
theorem lines_of_notMem {l : List Char} (hl : '\n' ∉ l) : lines l = if l.isEmpty then [] else [l] := by
  have h : l.splitOn '\n' = [l] :=
    List.splitOnP_eq_singleton fun c hc => by simpa using fun e : c = '\n' => hl (e ▸ hc)
  rw [lines, h, linesOfPieces]

/-- A property of texts is proved for one line without a newline, and for a line in front of a text. -/
@[elab_as_elim]
theorem lines_induction {P : List Char → Prop} (last : ∀ l, '\n' ∉ l → P l)
    (cons : ∀ l s, '\n' ∉ l → P s → P (l ++ '\n' :: s)) (s : List Char) : P s := by
  induction h : s.length using Nat.strongRecOn generalizing s with
  | _ n ih =>
    by_cases hs : '\n' ∈ s
    · obtain ⟨l, t, rfl, hl⟩ := List.eq_append_cons_of_mem hs
      refine cons l t hl (ih t.length ?_ t rfl)
      simp only [List.length_append, List.length_cons] at h
      omega
    · exact last s hs

theorem length_lines_le (s : List Char) : (lines s).length ≤ s.length := by
  induction s using lines_induction with
  | last l hl =>
    rw [lines_of_notMem hl]
    cases l <;> simp
  | cons l s hl ih =>
    rw [lines_append_newline hl, List.length_cons, List.length_append, List.length_cons]
    omega

theorem isInfix_of_mem_lines {s l : List Char} (h : l ∈ lines s) : l <:+: s := by
  induction s using lines_induction with
  | last t ht =>
    rw [lines_of_notMem ht] at h
    split at h
    · exact absurd h List.not_mem_nil
    · exact List.mem_singleton.1 h ▸ List.infix_rfl
  | cons t s ht ih =>
    rw [lines_append_newline ht] at h
    rcases List.mem_cons.1 h with rfl | h
    · have hreturn : dropReturn t <+: t := by
        unfold dropReturn
        split
        · exact List.dropLast_prefix t
        · exact List.prefix_rfl
      exact (hreturn.trans (List.prefix_append t _)).isInfix
    · exact (ih h).trans ((List.suffix_cons '\n' s).trans (List.suffix_append t _)).isInfix

/-- A line has no newline. -/
theorem newline_notMem_of_mem_lines {s l : List Char} (h : l ∈ lines s) : '\n' ∉ l := by
  induction s using lines_induction with
  | last t ht =>
    rw [lines_of_notMem ht] at h
    split at h
    · exact absurd h List.not_mem_nil
    · exact List.mem_singleton.1 h ▸ ht
  | cons t s ht ih =>
    rw [lines_append_newline ht] at h
    rcases List.mem_cons.1 h with rfl | h
    · unfold dropReturn
      split
      · exact fun hmem => ht (List.dropLast_subset t hmem)
      · exact ht
    · exact ih h

/-- Texts without newlines are the lines when each is ended by one. -/
theorem lines_flatMap {ls : List (List Char)} (h : ∀ l ∈ ls, '\n' ∉ l) :
    lines (ls.flatMap (· ++ ['\n'])) = ls.map dropReturn := by
  induction ls with
  | nil => rfl
  | cons l ls ih =>
    rw [List.flatMap_cons, List.append_assoc, List.singleton_append,
      lines_append_newline (h l List.mem_cons_self), ih fun x hx => h x (List.mem_cons_of_mem l hx),
      List.map_cons]

/-- Pieces with more behind them are lines. -/
theorem linesOfPieces_append (ps : List (List Char)) {qs : List (List Char)} (hq : qs ≠ []) :
    linesOfPieces (ps ++ qs) = ps.map dropReturn ++ linesOfPieces qs := by
  induction ps with
  | nil => rfl
  | cons p ps ih =>
    obtain ⟨r, rs, hr⟩ := List.exists_cons_of_ne_nil (l := ps ++ qs) (by simp [hq])
    rw [List.cons_append, hr, linesOfPieces, ← hr, ih, List.map_cons, List.cons_append]

/-- What stands before a newline is a text of its own. -/
theorem lines_append_newline_append (s t : List Char) :
    lines (s ++ '\n' :: t) = lines (s ++ ['\n']) ++ lines t := by
  have hsplit : ∀ r : List Char,
      lines (s ++ '\n' :: r) = (s.splitOn '\n').map dropReturn ++ lines r := by
    intro r
    have h : (s ++ '\n' :: r).splitOn '\n' = s.splitOn '\n' ++ r.splitOn '\n' :=
      List.splitOnP_append_cons _ _ (by simp)
    have hne : r.splitOn '\n' ≠ [] := List.splitOnP_ne_nil _ r
    rw [lines, h, linesOfPieces_append _ hne, lines]
  have hnil : lines [] = [] := rfl
  rw [hsplit t, hsplit [], hnil, List.append_nil]

/-- A text whose lines are all ended stands before another one line by line. -/
theorem lines_append {s : List Char} (hs : s = [] ∨ s.getLast? = some '\n') (t : List Char) :
    lines (s ++ t) = lines s ++ lines t := by
  rcases hs with rfl | hs
  · rfl
  · obtain ⟨s, rfl⟩ := List.getLast?_eq_some_iff.1 hs
    rw [List.append_assoc]
    exact lines_append_newline_append s t

end PseudoMove.Text
