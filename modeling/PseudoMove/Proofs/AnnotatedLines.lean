import PseudoMove.Commentary

/-!
# The lines of an annotated listing

An annotated listing has the lines of the listing, one for one.  No description of the instruction
set has a line break (`Opcode.oneLine_describe`), so a line with its comment is still one line
(`lines_annotate`).  Only a carriage return that ends a line would be lost, as part of the line
break behind it; in a listing without carriage returns every line is what it was, or what it was
with its comment behind it (`annotate_keeps`).
-/

namespace PseudoMove

open Text Listing

/-- A description stands on one line. -/
theorem Opcode.oneLine_describe {op : Opcode} (h : op.isKnown = true) :
    '\n' ∉ op.describe.toList ∧ '\r' ∉ op.describe.toList := by
  cases op with
  | unknown mnemonic => exact absurd h Bool.false_ne_true
  | ldInt ty => cases ty <;> decide
  | cast ty => cases ty <;> decide
  | binary op => cases op <;> decide
  | _ => decide

section

variable {line : List Char}

theorem annotateLine_of_known {r : Instruction} (hr : instruction? line = some r)
    (h : r.opcode.isKnown = true) :
    (annotateLine line).toList = line ++ ("  // " ++ r.opcode.describe).toList := by
  rw [annotateLine, hr]
  dsimp only
  rw [if_pos h, String.append_assoc, String.toList_append, String.toList_ofList]

theorem annotateLine_of_not (h : ∀ r, instruction? line = some r → r.opcode.isKnown = false) :
    (annotateLine line).toList = line := by
  unfold annotateLine
  split
  · next r hr =>
    rw [h r hr, if_neg Bool.false_ne_true, String.toList_ofList]
  · exact String.toList_ofList

/-- The two cases of a line. -/
theorem known_or_not (line : List Char) :
    (∃ r, instruction? line = some r ∧ r.opcode.isKnown = true) ∨
      ∀ r, instruction? line = some r → r.opcode.isKnown = false := by
  by_cases h : ∃ r, instruction? line = some r ∧ r.opcode.isKnown = true
  · exact .inl h
  · exact .inr fun r hr => Bool.eq_false_iff.2 fun hknown => h ⟨r, hr, hknown⟩

/-- A character that ends lines is in an annotated line only if the line had it. -/
theorem mem_of_mem_annotateLine {c : Char} (hc : c = '\n' ∨ c = '\r')
    (h : c ∈ (annotateLine line).toList) : c ∈ line := by
  rcases known_or_not line with ⟨r, hr, hknown⟩ | hnot
  · have hcomment : c ∉ ("  // " ++ r.opcode.describe).toList := by
      obtain ⟨hnewline, hreturn⟩ := Opcode.oneLine_describe hknown
      rcases hc with rfl | rfl <;> simp [hnewline, hreturn]
    rw [annotateLine_of_known hr hknown] at h
    exact (List.mem_append.1 h).resolve_right hcomment
  · rwa [annotateLine_of_not hnot] at h

end

/-- **The lines of an annotated listing are the annotated lines**, but for a carriage
return at the end of one. -/
theorem lines_annotate (text : String) :
    lines (annotate text).toList =
      (lines text.toList).map fun l => dropReturn (annotateLine l).toList := by
  have hlines : ∀ l ∈ (lines text.toList).map fun l => (annotateLine l).toList, '\n' ∉ l := by
    intro out hout
    obtain ⟨l, hl, rfl⟩ := List.mem_map.1 hout
    exact fun h => newline_notMem_of_mem_lines hl (mem_of_mem_annotateLine (.inl rfl) h)
  have htext : (annotate text).toList =
      ((lines text.toList).map fun l => (annotateLine l).toList).flatMap (· ++ ['\n']) := by
    rw [annotate, String.toList_join, List.flatMap_map, List.flatMap_map]
    simp
  rw [htext, lines_flatMap hlines, List.map_map]
  rfl

/-- **An annotated listing keeps the listing.** It has as many lines, if there are no carriage
returns, and each line is the line of the listing: with the description of its opcode behind it if
the line spells an instruction with a known opcode, and unchanged otherwise and only then. -/
theorem annotate_keeps {text : String} (htext : '\r' ∉ text.toList) :
    (lines (annotate text).toList).length = (lines text.toList).length ∧
      ∀ (i : Nat) (line out : List Char), (lines text.toList)[i]? = some line →
        (lines (annotate text).toList)[i]? = some out →
          (∀ r, instruction? line = some r → r.opcode.isKnown = true →
            out = line ++ ("  // " ++ r.opcode.describe).toList) ∧
          (out = line ↔ ∀ r, instruction? line = some r → r.opcode.isKnown = false) := by
  refine ⟨by rw [lines_annotate, List.length_map], fun i line out hline hout => ?_⟩
  have hmem : line ∈ lines text.toList := List.mem_of_getElem? hline
  have hreturn : '\r' ∉ (annotateLine line).toList := fun h =>
    htext ((isInfix_of_mem_lines hmem).subset (mem_of_mem_annotateLine (.inr rfl) h))
  obtain rfl : out = (annotateLine line).toList := by
    rw [lines_annotate, List.getElem?_map, hline] at hout
    rw [← Option.some.inj hout]
    exact if_neg fun h => hreturn (List.mem_of_getLast? h)
  refine ⟨fun r => annotateLine_of_known, fun heq r hr => ?_, annotateLine_of_not⟩
  -- a comment is not empty
  rw [Bool.eq_false_iff]
  intro hknown
  rw [annotateLine_of_known hr hknown] at heq
  simp at heq

/-- A header, a known and an unknown opcode, a blank line, and a last line without a newline. -/
def frobnicated : String := "public fun f() \x7b\n0: LdU64(1)\n1: Frobnicate\n\n2: Ret"

/-- The known opcode gets a comment, the unknown one does not. -/
theorem annotate_keeps_frobnicated :
    '\r' ∉ frobnicated.toList ∧ (lines (annotate frobnicated).toList).length = 5 ∧
      (lines (annotate frobnicated).toList)[1]? = some "0: LdU64(1)  // push u64 literal".toList ∧
      (lines (annotate frobnicated).toList)[2]? = some "1: Frobnicate".toList := by
  have htext : '\r' ∉ frobnicated.toList := by decide +kernel
  have hlines : lines frobnicated.toList = ["public fun f() \x7b".toList, "0: LdU64(1)".toList,
      "1: Frobnicate".toList, [], "2: Ret".toList] := by decide +kernel
  have hknown : instruction? "0: LdU64(1)".toList = some ⟨0, .ldInt .u64, none, some "1"⟩ := by
    decide +kernel
  have hunknown : instruction? "1: Frobnicate".toList =
      some ⟨1, .unknown "Frobnicate", none, none⟩ := by decide +kernel
  obtain ⟨hlength, hkeeps⟩ := annotate_keeps htext
  have hfive : (lines (annotate frobnicated).toList).length = 5 := by rw [hlength, hlines]; rfl
  have hout : ∀ i < 5, ∃ out, (lines (annotate frobnicated).toList)[i]? = some out :=
    fun i hi => ⟨_, List.getElem?_eq_getElem (hfive.symm ▸ hi)⟩
  refine ⟨htext, hfive, ?_, ?_⟩
  · obtain ⟨out, hout⟩ := hout 1 (by decide)
    rw [hout, (hkeeps 1 _ out (by rw [hlines]; rfl) hout).1 _ hknown rfl]
    decide +kernel
  · obtain ⟨out, hout⟩ := hout 2 (by decide)
    rw [hout, (hkeeps 2 _ out (by rw [hlines]; rfl) hout).2.2 fun r hr => ?_]
    obtain rfl := Option.some.inj (hunknown.symm.trans hr)
    rfl

end PseudoMove
