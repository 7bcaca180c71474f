import PseudoMove.Json.Printer
import PseudoMove.Json.Reader
import PseudoMove.Proofs.Scanning

/-!
# JSON that is written can be read

In both layouts the text of a value is read as this value again, as long as its numbers are
spelled as numbers: strings may hold any characters.  A value is read with whatever follows it
left over, provided that this does not go on with a number (`Stops isNumberPart`), so that each
reader can be taken by itself.

* `readString?_printed` — strings: only what has to be escaped is, and escapes stand for what they
  should;
* `number?_append` — a number ends where its spelling does;
* `readItems?_print`, `readMembers?_print` — what is between brackets, if each value in it
  reads back (`ReadsBack`);
* `Spelled.readsBack` — values, by induction on their parts;
* `readWith?_print` — whole texts.
-/

namespace PseudoMove.Json

open PseudoMove.Text PseudoMove.Listing

/-! ## Strings -/

/-- A character of a string is written behind a backslash by a letter for it, or by
its number, or as it is. -/
theorem escapeChar_cases (c : Char) :
    (∃ d, escapeChar c = ['\\', d] ∧ d ≠ 'u' ∧ shortEscape? d = some c) ∨
    (c.toNat < 32 ∧
      escapeChar c = ['\\', 'u', '0', '0', hexDigit (c.toNat / 16), hexDigit (c.toNat % 16)]) ∨
    (escapeChar c = [c] ∧ 32 ≤ c.toNat ∧ c ≠ '"' ∧ c ≠ '\\') := by
  unfold escapeChar
  split_ifs with hquote hn hr ht hb hf hcontrol
  · exact .inl ⟨c, rfl, by rcases hquote with rfl | rfl <;> decide, if_pos (hquote.imp_right .inl)⟩
  · exact .inl ⟨'n', rfl, by decide, hn ▸ rfl⟩
  · exact .inl ⟨'r', rfl, by decide, hr ▸ rfl⟩
  · exact .inl ⟨'t', rfl, by decide, ht ▸ rfl⟩
  · exact .inl ⟨'b', rfl, by decide, hb ▸ rfl⟩
  · exact .inl ⟨'f', rfl, by decide, hf ▸ rfl⟩
  · exact .inr (.inl ⟨hcontrol, rfl⟩)
  · exact .inr (.inr ⟨rfl, not_lt.1 hcontrol, not_or.1 hquote⟩)

theorem hexQuad?_control :
    ∀ n < 32, hexQuad? '0' '0' (hexDigit (n / 16)) (hexDigit (n % 16)) = some n := by
  decide

/-- A small number is not half of a surrogate pair. -/
theorem textOf?_unit (strict : Bool) {n : Nat} (hn : n < 32) (ps : List Part) :
    textOf? strict (.unit n :: ps) = (textOf? strict ps).map (Char.ofNat n :: ·) := by
  have hhigh : isHighHalf n = false := by simp [isHighHalf]; omega
  have hlow : isLowHalf n = false := by simp [isLowHalf]; omega
  cases ps with
  | nil => simp [textOf?, hhigh, hlow]
  | cons p ps => cases p <;> simp [textOf?, hhigh, hlow]

/-- A character that is written is read as one part, which stands for it. -/
theorem exists_part (c : Char) : ∃ p, (∀ s, parts? (escapeChar c ++ s) = consPart p (parts? s)) ∧
    ∀ strict ps, textOf? strict (p :: ps) = (textOf? strict ps).map (c :: ·) := by
  rcases escapeChar_cases c with ⟨d, he, hd, hshort⟩ | ⟨hcontrol, he⟩ |
    ⟨he, hcontrol, hquote, hslash⟩
  · refine ⟨.char c, fun s => ?_, fun strict ps => by rw [textOf?]⟩
    rw [he, List.cons_append, List.singleton_append, parts?, hshort, Option.bind_some]
    rintro a b e f t rfl -
    exact hd rfl
  · refine ⟨.unit c.toNat, fun s => ?_, fun strict ps => ?_⟩
    · rw [he]
      simp only [List.cons_append, List.nil_append, parts?, hexQuad?_control c.toNat hcontrol,
        Option.bind_some]
    · rw [textOf?_unit strict hcontrol, Char.ofNat_toNat]
  · refine ⟨.char c, fun s => ?_, fun strict ps => by rw [textOf?]⟩
    rw [he, List.singleton_append, parts?]
    · exact if_neg (by simp [hslash]; omega)
    · exact hquote
    · exact fun _ _ _ _ _ h => absurd h hslash
    · exact fun _ _ h => absurd h hslash

/-- **A string is read as it was written**, strictly or not. -/
theorem readString?_printed (strict : Bool) (s rest : List Char) :
    readString? strict (s.flatMap escapeChar ++ '"' :: rest) = some (s, rest) := by
  have hparts : ∃ ps, parts? (s.flatMap escapeChar ++ '"' :: rest) = some (ps, rest) ∧
      textOf? strict ps = some s := by
    induction s with
    | nil => exact ⟨[], rfl, rfl⟩
    | cons c s ih =>
      obtain ⟨ps, hps, htext⟩ := ih
      obtain ⟨p, hp, hone⟩ := exists_part c
      refine ⟨p :: ps, ?_, by rw [hone, htext, Option.map_some]⟩
      rw [List.flatMap_cons, List.append_assoc, hp, hps]
      rfl
  obtain ⟨ps, hps, htext⟩ := hparts
  rw [readString?, hps]
  simp only [bind, Option.bind_some, htext]

/-! ## Numbers -/

/-- A character with which a number may go on. -/
def isNumberPart (c : Char) : Bool := c.isDigit || ['.', 'e', 'E', '+', '-'].contains c

theorem takeWhile_append_of_stops {p : Char → Bool} {t : List Char} (ht : Stops p t)
    (s : List Char) :
    (s ++ t).takeWhile p = s.takeWhile p ∧ (s ++ t).dropWhile p = s.dropWhile p ++ t := by
  induction s with
  | nil => exact takeWhile_append (fun _ h => absurd h List.not_mem_nil) ht
  | cons c s ih =>
    cases hc : p c with
    | true => simpa [hc] using ih
    | false => simp [hc]

section

variable {s p r t : List Char}

/-- What is put in front of what is read does not matter. -/
theorem map_append_of {read? : List Char → Option (List Char × List Char)}
    (hread : ∀ {p r}, read? s = some (p, r) → read? (s ++ t) = some (p, r ++ t))
    (f : List Char → List Char) (h : ((read? s).map fun q => (f q.1, q.2)) = some (p, r)) :
    ((read? (s ++ t)).map fun q => (f q.1, q.2)) = some (p, r ++ t) := by
  obtain ⟨⟨q, r'⟩, hq, hr⟩ := Option.map_eq_some_iff.1 h
  obtain ⟨rfl, rfl⟩ := Prod.mk.inj hr
  rw [hread hq, Option.map_some]

variable (ht : Stops isNumberPart t)
include ht

/-- What follows a number begins with none of these characters. -/
theorem ne_cons_of_stops {m : Char} (hm : isNumberPart m = true) (hs : ∀ q, s ≠ m :: q)
    (q : List Char) :
    s ++ t ≠ m :: q := by
  cases s with
  | nil =>
    rintro rfl
    exact absurd (ht m rfl) (by simp [hm])
  | cons c s =>
    intro h
    obtain ⟨rfl, -⟩ := List.cons.inj h
    exact hs s rfl

theorem digits?_append (h : digits? s = some (p, r)) : digits? (s ++ t) = some (p, r ++ t) := by
  have hdigit : Stops Char.isDigit t := fun c hc => (Bool.or_eq_false_iff.1 (ht c hc)).1
  obtain ⟨htake, hdrop⟩ := takeWhile_append_of_stops hdigit s
  unfold digits? at h ⊢
  rw [htake, hdrop]
  split at h
  · exact absurd h (by simp)
  · obtain ⟨rfl, rfl⟩ := Prod.mk.inj (Option.some.inj h)
    rfl

theorem wholePart?_append (h : wholePart? s = some (p, r)) :
    wholePart? (s ++ t) = some (p, r ++ t) := by
  obtain ⟨⟨ds, q⟩, hds, h⟩ := Option.bind_eq_some_iff.1 h
  rw [wholePart?, digits?_append ht hds]
  dsimp only at h
  simp only [bind, Option.bind_some]
  rw [Option.ite_none_left_eq_some] at h ⊢
  obtain ⟨rfl, rfl⟩ := Prod.mk.inj (Option.some.inj h.2)
  exact ⟨h.1, rfl⟩

theorem fractionPart?_append (h : fractionPart? s = some (p, r)) :
    fractionPart? (s ++ t) = some (p, r ++ t) := by
  unfold fractionPart? at h
  split at h
  · exact map_append_of (digits?_append ht) ('.' :: ·) h
  · next hdot =>
    obtain ⟨rfl, rfl⟩ := Prod.mk.inj (Option.some.inj h)
    rw [fractionPart?]
    exact ne_cons_of_stops ht (by decide) hdot

theorem exponentPart?_append (h : exponentPart? s = some (p, r)) :
    exponentPart? (s ++ t) = some (p, r ++ t) := by
  cases s with
  | nil =>
    obtain ⟨rfl, rfl⟩ := Prod.mk.inj (Option.some.inj h)
    cases t with
    | nil => rfl
    | cons c t =>
      have hne : ¬ (c = 'e' ∨ c = 'E') := by
        rintro (rfl | rfl) <;> exact absurd (ht _ rfl) (by decide)
      exact if_neg hne
  | cons e s =>
    rw [List.cons_append]
    unfold exponentPart? at h ⊢
    dsimp only at h ⊢
    by_cases he : e = 'e' ∨ e = 'E'
    · rw [if_pos he] at h ⊢
      split at h
      · exact map_append_of (digits?_append ht) (e :: '+' :: ·) h
      · exact map_append_of (digits?_append ht) (e :: '-' :: ·) h
      · next hplus hminus =>
        split
        · next r hq => exact absurd hq (ne_cons_of_stops ht (by decide) hplus r)
        · next r hq => exact absurd hq (ne_cons_of_stops ht (by decide) hminus r)
        · exact map_append_of (digits?_append ht) (e :: ·) h
    · rw [if_neg he] at h ⊢
      obtain ⟨rfl, rfl⟩ := Prod.mk.inj (Option.some.inj h)
      rfl

theorem unsigned?_append (h : unsigned? s = some (p, r)) :
    unsigned? (s ++ t) = some (p, r ++ t) := by
  obtain ⟨⟨whole, s₁⟩, h₁, h⟩ := Option.bind_eq_some_iff.1 h
  obtain ⟨⟨fraction, s₂⟩, h₂, h⟩ := Option.bind_eq_some_iff.1 h
  obtain ⟨⟨exponent, s₃⟩, h₃, h⟩ := Option.bind_eq_some_iff.1 h
  obtain ⟨rfl, rfl⟩ := Prod.mk.inj (Option.some.inj h)
  rw [unsigned?, wholePart?_append ht h₁]
  simp only [bind, Option.bind_some, fractionPart?_append ht h₂, exponentPart?_append ht h₃]

/-- **A number ends where its spelling does**, if nothing follows with which it could go on. -/
theorem number?_append (h : number? s = some (p, r)) : number? (s ++ t) = some (p, r ++ t) := by
  unfold number? at h
  split at h
  · exact map_append_of (unsigned?_append ht) ('-' :: ·) h
  · next hminus =>
    rw [number?, unsigned?_append ht h]
    exact ne_cons_of_stops ht (by decide) hminus

end

/-- A number does not begin with anything else. -/
theorem ne_of_isNumberPart {c d : Char} (hc : isNumberPart c = true) (hd : isNumberPart d = false) :
    c ≠ d := by
  rintro rfl
  exact absurd (hc.symm.trans hd) (by decide)

theorem isSpace_of_isNumberPart {c : Char} (hc : isNumberPart c = true) : isSpace c = false := by
  have hne {d : Char} (hd : isNumberPart d = false) : c ≠ d := ne_of_isNumberPart hc hd
  simp only [isSpace, Bool.or_eq_false_iff, beq_eq_false_iff_ne]
  exact ⟨⟨⟨hne (by decide), hne (by decide)⟩, hne (by decide)⟩, hne (by decide)⟩

/-- A number is not a word. -/
theorem literal?_of_isNumberPart {c : Char} (hc : isNumberPart c = true) (s : List Char) :
    literal? (c :: s) = none := by
  have hne {d : Char} (hd : isNumberPart d = false) : d ≠ c := (ne_of_isNumberPart hc hd).symm
  have hn : 'n' ≠ c := hne (by decide)
  have ht : 't' ≠ c := hne (by decide)
  have hf : 'f' ≠ c := hne (by decide)
  simp [literal?, afterPrefix?, hn, ht, hf]

theorem exists_head_of_number? {s p r : List Char} (h : number? s = some (p, r)) :
    ∃ c t, s = c :: t ∧ isNumberPart c = true := by
  have hdigits : ∀ {s q}, unsigned? s = some q → ∃ c t, s = c :: t ∧ isNumberPart c = true := by
    intro s q h
    obtain ⟨w, hw, -⟩ := Option.bind_eq_some_iff.1 h
    obtain ⟨d, hd, -⟩ := Option.bind_eq_some_iff.1 hw
    cases s with
    | nil => exact absurd hd (by simp [digits?])
    | cons c s =>
      refine ⟨c, s, rfl, ?_⟩
      by_contra hc
      have hc : c.isDigit = false := (Bool.or_eq_false_iff.1 (Bool.eq_false_iff.2 hc)).1
      simp [digits?, hc] at hd
  unfold number? at h
  split at h
  · exact ⟨'-', _, rfl, by decide⟩
  · exact hdigits h

/-! ## Spaces -/

theorem skipSpace_append {b : List Char} (hb : b.all isSpace = true) (s : List Char) :
    skipSpace (b ++ s) = skipSpace s :=
  List.dropWhile_append_of_pos (List.all_eq_true.1 hb)

theorem skipSpace_cons {c : Char} (hc : isSpace c = false) (s : List Char) :
    skipSpace (c :: s) = c :: s :=
  List.dropWhile_cons_of_neg (by simp [hc])

theorem isSpace_lineBreak (layout : Layout) (level : Nat) :
    (lineBreak layout level).all isSpace = true := by
  cases layout with
  | compact => rfl
  | pretty => simp [lineBreak, isSpace]

/-- What stands behind a line break may follow a number. -/
theorem stops_lineBreak (layout : Layout) (level : Nat) {c : Char} (hc : isNumberPart c = false)
    (s : List Char) :
    Stops isNumberPart (lineBreak layout level ++ c :: s) := by
  cases layout with
  | compact => exact stops_cons hc
  | pretty => exact stops_cons (by decide)

theorem exists_colon (layout : Layout) : ∃ b, colon layout = ':' :: b ∧ b.all isSpace = true := by
  cases layout with
  | compact => exact ⟨[], rfl, rfl⟩
  | pretty => exact ⟨[' '], rfl, rfl⟩

section

variable {b : List Char} (hb : b.all isSpace = true) (inner strict : Bool) (n : Nat) (s : List Char)
include hb

theorem readValue?_append : readValue? inner strict n (b ++ s) = readValue? inner strict n s := by
  cases n with
  | zero => rw [readValue?, readValue?]
  | succ n => rw [readValue?, readValue?, skipSpace_append hb]

theorem readItems?_append : readItems? inner n (b ++ s) = readItems? inner n s := by
  cases n with
  | zero => rw [readItems?, readItems?]
  | succ n => rw [readItems?, readItems?, readValue?_append hb]

theorem readMembers?_append :
    readMembers? inner strict n (b ++ s) = readMembers? inner strict n s := by
  cases n with
  | zero => rw [readMembers?, readMembers?]
  | succ n => rw [readMembers?, readMembers?, skipSpace_append hb]

end

/-! ## Steps of the reader

What is in front decides how the rest is read. -/

section

variable {inner strict : Bool} {n : Nat} {s t u rest : List Char} {v : Json}

/-- What does not begin like a string, an array or an object is a word or a number. -/
theorem readValue?_plain (inner strict : Bool) (n : Nat)
    {c : Char} (s : List Char) (hspace : isSpace c = false)
    (hc : c ∉ ['"', '[', '{']) : readValue? inner strict (n + 1) (c :: s) =
      (literal? (c :: s)).or ((number? (c :: s)).map fun p => (.number p.1, p.2)) := by
  rw [readValue?, skipSpace_cons hspace]
  simp only [List.mem_cons, List.not_mem_nil, or_false, not_or] at hc
  split
  · next h => cases h
  · next h => cases h; exact absurd rfl hc.1
  · next h => cases h; exact absurd rfl hc.2.1
  · next h => cases h; exact absurd rfl hc.2.2
  · rfl

theorem readValue?_array {vs : List Json} (hs : ∀ t, skipSpace s ≠ ']' :: t)
    (hitems : readItems? inner n (skipSpace s) = some (vs, rest)) :
    readValue? inner strict (n + 1) ('[' :: s) = some (.array vs, rest) := by
  generalize hr : skipSpace s = r at hs hitems
  rw [readValue?, skipSpace_cons (by decide)]
  simp only [hr, hitems, Option.map_some]

theorem readValue?_object {ms : List (String × Json)} (hs : ∀ t, skipSpace s ≠ '}' :: t)
    (hmembers : readMembers? inner strict n (skipSpace s) = some (ms, rest)) :
    readValue? inner strict (n + 1) ('{' :: s) = some (.object ms, rest) := by
  generalize hr : skipSpace s = r at hs hmembers
  rw [readValue?, skipSpace_cons (by decide)]
  simp only [hr, hmembers, Option.map_some]

theorem readItems?_last (hv : readValue? inner inner n s = some (v, t))
    (ht : skipSpace t = ']' :: rest) : readItems? inner (n + 1) s = some ([v], rest) := by
  rw [readItems?, hv]
  simp only [ht]

theorem readItems?_more {vs : List Json} (hv : readValue? inner inner n s = some (v, t))
    (ht : skipSpace t = ',' :: u) (hu : readItems? inner n u = some (vs, rest)) :
    readItems? inner (n + 1) s = some (v :: vs, rest) := by
  rw [readItems?, hv]
  simp only [ht, hu, Option.map_some]

variable {k : String} {q q' q'' : List Char} (hs : skipSpace s = '"' :: q)
  (hk : readString? strict q = some (k.toList, q')) (hq : skipSpace q' = ':' :: q'')
  (hv : readValue? inner inner n q'' = some (v, t))
include hs hk hq hv

theorem readMembers?_last (ht : skipSpace t = '}' :: rest) :
    readMembers? inner strict (n + 1) s = some ([(k, v)], rest) := by
  rw [readMembers?]
  simp only [hs, hk, hq, hv, ht, String.ofList_toList]

theorem readMembers?_more {ms : List (String × Json)} (ht : skipSpace t = ',' :: u)
    (hu : readMembers? inner strict n u = some (ms, rest)) :
    readMembers? inner strict (n + 1) s = some ((k, v) :: ms, rest) := by
  rw [readMembers?]
  simp only [hs, hk, hq, hv, ht, hu, Option.map_some, String.ofList_toList]

end

/-! ## Values -/

/-- All numbers of a value are spelled as numbers. -/
inductive Spelled : Json → Prop
  | null : Spelled .null
  | bool (b : Bool) : Spelled (.bool b)
  | number {literal : List Char} (h : number? literal = some (literal, [])) :
    Spelled (.number literal)
  | string (s : String) : Spelled (.string s)
  | array {vs : List Json} (h : ∀ v ∈ vs, Spelled v) : Spelled (.array vs)
  | object {ms : List (String × Json)} (h : ∀ m ∈ ms, Spelled m.2) : Spelled (.object ms)

/-- The text of a value is read as this value, at any level and with more steps than it has
characters. What follows is left over. -/
def ReadsBack (v : Json) : Prop :=
  ∀ layout level inner strict n rest,
    (printAt layout level v).length < n → Stops isNumberPart rest →
    readValue? inner strict n (printAt layout level v ++ rest) = some (v, rest)

/-- Items are read up to the closing bracket if each can be read. -/
theorem readItems?_print (layout : Layout) (level outer : Nat) (inner : Bool)
    (rest : List Char) {v : Json} {vs : List Json} (h : ∀ w ∈ v :: vs, ReadsBack w) {n : Nat}
    (hn : (printAt layout level v ++ printItems layout level vs).length + 1 < n) :
    readItems? inner n (printAt layout level v ++
      (printItems layout level vs ++ (lineBreak layout outer ++ ']' :: rest))) =
      some (v :: vs, rest) := by
  obtain ⟨n, rfl⟩ : ∃ k, n = k + 1 := ⟨n - 1, by omega⟩
  induction vs generalizing v n with
  | nil =>
    have hv :=
      h v List.mem_cons_self layout level inner inner n (lineBreak layout outer ++ ']' :: rest)
      (by simp at hn; omega) (stops_lineBreak _ _ (by decide) _)
    rw [printItems, List.nil_append]
    refine readItems?_last hv ?_
    rw [skipSpace_append (isSpace_lineBreak _ _), skipSpace_cons (by decide)]
  | cons w ws ih =>
    simp only [printItems, List.length_append, List.length_cons] at hn
    have hv (tail : List Char) :=
      h v List.mem_cons_self layout level inner inner n (',' :: tail) (by omega)
        (stops_cons (by decide))
    obtain ⟨n, rfl⟩ : ∃ k, n = k + 1 := ⟨n - 1, by omega⟩
    simp only [printItems, List.cons_append, List.append_assoc]
    refine readItems?_more (hv _) (skipSpace_cons (by decide) _) ?_
    rw [readItems?_append (isSpace_lineBreak _ _)]
    exact ih (fun x hx => h x (List.mem_cons_of_mem v hx)) _ (by rw [List.length_append]; omega)

/-- The parts of a member, as they are read one after the other. -/
theorem exists_member (layout : Layout) (strict : Bool) (k : String) (t : List Char) :
    ∃ q q' q'', skipSpace (printString k ++ (colon layout ++ t)) = '"' :: q ∧
      readString? strict q = some (k.toList, q') ∧ skipSpace q' = ':' :: q'' ∧
      ∀ inner n, readValue? inner inner n q'' = readValue? inner inner n t := by
  obtain ⟨b, hcolon, hb⟩ := exists_colon layout
  refine ⟨k.toList.flatMap escapeChar ++ '"' :: (colon layout ++ t), colon layout ++ t, b ++ t, ?_,
    readString?_printed _ _ _, ?_, fun inner n => readValue?_append hb inner inner n t⟩
  · rw [printString, List.cons_append, List.cons_append, List.append_assoc,
      skipSpace_cons (by decide)]
    rfl
  · rw [hcolon, List.cons_append, skipSpace_cons (by decide)]

/-- Members are read up to the closing brace if the value of each can be read. -/
theorem readMembers?_print (layout : Layout) (level outer : Nat)
    (inner strict : Bool) (rest : List Char) {k : String}
    {v : Json} {ms : List (String × Json)} (h : ∀ m ∈ (k, v) :: ms, ReadsBack m.2) {n : Nat}
    (hn : (printAt layout level v ++ printMembers layout level ms).length + 1 < n) :
    readMembers? inner strict n (printString k ++ (colon layout ++ (printAt layout level v ++
        (printMembers layout level ms ++ (lineBreak layout outer ++ '}' :: rest))))) =
      some ((k, v) :: ms, rest) := by
  obtain ⟨n, rfl⟩ : ∃ k, n = k + 1 := ⟨n - 1, by omega⟩
  induction ms generalizing k v n with
  | nil =>
    obtain ⟨q, q', q'', hs, hk, hq, hvalue⟩ :=
      exists_member layout strict k (printAt layout level v ++
        (printMembers layout level [] ++ (lineBreak layout outer ++ '}' :: rest)))
    have hv :=
      h _ List.mem_cons_self layout level inner inner n (lineBreak layout outer ++ '}' :: rest)
      (by simp at hn; dsimp only; omega) (stops_lineBreak _ _ (by decide) _)
    refine readMembers?_last hs hk hq ((hvalue _ _).trans hv) ?_
    rw [skipSpace_append (isSpace_lineBreak _ _), skipSpace_cons (by decide)]
  | cons m ms ih =>
    obtain ⟨k', w⟩ := m
    simp only [printMembers, List.length_append, List.length_cons] at hn
    simp only [printMembers, List.cons_append, List.append_assoc]
    obtain ⟨q, q', q'', hs, hk, hq, hvalue⟩ :=
      exists_member layout strict k (printAt layout level v ++
        (',' :: (lineBreak layout level ++ (printString k' ++ (colon layout ++
          (printAt layout level w ++ (printMembers layout level ms ++
            (lineBreak layout outer ++ '}' :: rest))))))))
    have hv (tail : List Char) := h _ List.mem_cons_self layout level inner inner n (',' :: tail)
      (by dsimp only; omega) (stops_cons (by decide))
    obtain ⟨n, rfl⟩ : ∃ k, n = k + 1 := ⟨n - 1, by omega⟩
    refine readMembers?_more hs hk hq ((hvalue _ _).trans (hv _)) (skipSpace_cons (by decide) _) ?_
    rw [readMembers?_append (isSpace_lineBreak _ _)]
    exact ih (fun x hx => h x (List.mem_cons_of_mem _ hx)) _ (by rw [List.length_append]; omega)

/-! ## Whole values -/

/-- With what character the text of a value may begin. -/
theorem exists_head (layout : Layout) (level : Nat) {v : Json} (h : Spelled v) :
    ∃ c s, printAt layout level v = c :: s ∧ isSpace c = false ∧ c ≠ ']' := by
  cases h with
  | null => exact ⟨_, _, rfl, by decide⟩
  | bool b => cases b <;> exact ⟨_, _, rfl, by decide⟩
  | number h =>
    obtain ⟨c, s, rfl, hc⟩ := exists_head_of_number? h
    exact ⟨c, s, by rw [printAt], isSpace_of_isNumberPart hc, ne_of_isNumberPart hc (by decide)⟩
  | string s => exact ⟨_, _, rfl, by decide⟩
  | @array vs h => cases vs <;> exact ⟨_, _, rfl, by decide⟩
  | @object ms h => cases ms <;> exact ⟨_, _, rfl, by decide⟩

/-- A word is read as what it stands for. -/
theorem readsBack_word {v : Json} {c : Char} {s : List Char}
    (hs : ∀ layout level, printAt layout level v = c :: s)
    (hc : isSpace c = false ∧ c ∉ ['"', '[', '{'])
    (hword : ∀ t, literal? (c :: s ++ t) = some (v, t)) : ReadsBack v := by
  intro layout level inner strict n rest hn hrest
  obtain ⟨n, rfl⟩ : ∃ k, n = k + 1 := ⟨n - 1, by omega⟩
  rw [hs, List.cons_append, readValue?_plain inner strict n _ hc.1 hc.2, ← List.cons_append, hword]
  rfl

theorem readsBack_number {literal : List Char} (h : number? literal = some (literal, [])) :
    ReadsBack (.number literal) := by
  intro layout level inner strict n rest hn hrest
  obtain ⟨n, rfl⟩ : ∃ k, n = k + 1 := ⟨n - 1, by omega⟩
  have hnumber := number?_append hrest h
  obtain ⟨c, s, rfl, hc⟩ := exists_head_of_number? h
  have hne {d : Char} (hd : isNumberPart d = false) : c ≠ d := ne_of_isNumberPart hc hd
  rw [printAt, List.cons_append, readValue?_plain inner strict n _ (isSpace_of_isNumberPart hc),
    ← List.cons_append, hnumber, List.cons_append, literal?_of_isNumberPart hc]
  · rfl
  · simp only [List.mem_cons, List.not_mem_nil, or_false, not_or]
    exact ⟨hne (by decide), hne (by decide), hne (by decide)⟩

theorem readsBack_string (s : String) : ReadsBack (.string s) := by
  intro layout level inner strict n rest hn hrest
  obtain ⟨n, rfl⟩ : ∃ k, n = k + 1 := ⟨n - 1, by omega⟩
  rw [printAt, printString, List.cons_append, List.cons_append, List.append_assoc, readValue?,
    skipSpace_cons (by decide)]
  simp only [List.singleton_append, readString?_printed, Option.map_some, String.ofList_toList]

theorem readsBack_array {vs : List Json} (h : ∀ v ∈ vs, Spelled v) (hback : ∀ v ∈ vs, ReadsBack v) :
    ReadsBack (.array vs) := by
  intro layout level inner strict n rest hn hrest
  obtain ⟨n, rfl⟩ : ∃ k, n = k + 1 := ⟨n - 1, by omega⟩
  cases vs with
  | nil =>
    rw [printAt, List.cons_append, readValue?, skipSpace_cons (by decide)]
    rfl
  | cons v vs =>
    obtain ⟨c, s, hs, hspace, hc⟩ := exists_head layout (level + 1) (h v List.mem_cons_self)
    simp only [printAt, List.length_append, List.length_cons] at hn
    have hitems := readItems?_print layout (level + 1) level inner rest hback (n := n)
      (by rw [List.length_append]; omega)
    simp only [printAt, List.cons_append, List.append_assoc, List.nil_append]
    have hskip (t : List Char) :
        skipSpace (lineBreak layout (level + 1) ++ (printAt layout (level + 1) v ++ t)) =
        printAt layout (level + 1) v ++ t := by
      rw [skipSpace_append (isSpace_lineBreak _ _), hs, List.cons_append, skipSpace_cons hspace]
    refine readValue?_array (fun t => ?_) (by rw [hskip, hitems])
    rw [hskip, hs]
    exact fun h => hc (List.cons.inj h).1

theorem readsBack_object {ms : List (String × Json)} (hback : ∀ m ∈ ms, ReadsBack m.2) :
    ReadsBack (.object ms) := by
  intro layout level inner strict n rest hn hrest
  obtain ⟨n, rfl⟩ : ∃ k, n = k + 1 := ⟨n - 1, by omega⟩
  cases ms with
  | nil =>
    rw [printAt, List.cons_append, readValue?, skipSpace_cons (by decide)]
    rfl
  | cons m ms =>
    obtain ⟨k, v⟩ := m
    simp only [printAt, List.length_append, List.length_cons] at hn
    have hmembers := readMembers?_print layout (level + 1) level inner strict rest hback (n := n)
      (by rw [List.length_append]; omega)
    simp only [printAt, List.cons_append, List.append_assoc, List.nil_append]
    have hskip (t : List Char) : skipSpace (lineBreak layout (level + 1) ++ (printString k ++ t)) =
        printString k ++ t := by
      rw [skipSpace_append (isSpace_lineBreak _ _)]
      exact skipSpace_cons (by decide) _
    refine readValue?_object (fun t => ?_) (by rw [hskip, hmembers])
    rw [hskip]
    exact fun h => absurd (List.cons.inj h).1 (by decide)

/-- **What is spelled right reads back**, whatever it is part of. -/
theorem Spelled.readsBack {v : Json} (h : Spelled v) : ReadsBack v := by
  induction h with
  | null => exact readsBack_word (fun _ _ => rfl) (by decide) fun _ => rfl
  | bool b =>
    cases b
    · exact readsBack_word (fun _ _ => rfl) (by decide) fun _ => rfl
    · exact readsBack_word (fun _ _ => rfl) (by decide) fun _ => rfl
  | number h => exact readsBack_number h
  | string s => exact readsBack_string s
  | array h ih => exact readsBack_array h ih
  | object h ih => exact readsBack_object ih

/-- **What is written is read**, with the strings inside read strictly or not. -/
theorem readWith?_print (layout : Layout) (inner : Bool) {v : Json} (h : Spelled v) :
    readWith? inner (print layout v) = some v := by
  have hv := h.readsBack layout 0 inner true (2 * (printAt layout 0 v).length + 2) [] (by omega)
    (fun c hc => absurd hc (by simp))
  rw [List.append_nil] at hv
  rw [readWith?, print, String.toList_ofList]
  simp only [hv]
  rfl

theorem read?_print (layout : Layout) {v : Json} (h : Spelled v) :
    read? (print layout v) = some v :=
  readWith?_print layout true h

end PseudoMove.Json
