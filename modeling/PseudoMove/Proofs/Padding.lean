import PseudoMove.Proofs.BracePlacement

/-!
# Blanks around a line

Spaces and tabs in front of a line are skipped by whatever reads it, and so they are behind a brace,
a semicolon, a comma or a closing parenthesis that it ends with (`closingMarks`).  A scanner that
has not come to the last mark leaves it with what stands behind it, and no scanner but those for
values, which trim them, looks behind a mark.

* `moduleName?_padded`, `useDecl?_padded`, `constDecl?_padded`, `structHeader?_padded`,
  `functionHeader?_padded` — the declarations;
* `field?_append` — a field, which is read without the braces of its line and so may
  end with blanks already;
* `bodyLine_padded` — the lines of bodies.
-/

namespace PseudoMove.Listing

open Text PseudoMove.Bracket

/-- The characters behind which blanks count for nothing. -/
def closingMarks : List Char := ['{', '}', ';', ',', ')']

/-- Spaces and tabs. -/
def IsPadding (t : List Char) : Prop := ∀ c ∈ t, c = ' ' ∨ c = '\t'

instance (t : List Char) : Decidable (IsPadding t) := List.decidableBAll _ t

theorem IsPadding.nil : IsPadding [] := fun _ h => absurd h List.not_mem_nil

theorem IsPadding.isBlank {t : List Char} (ht : IsPadding t) : t.all isBlank = true :=
  List.all_eq_true.2 fun c hc => by rcases ht c hc with rfl | rfl <;> rfl

theorem IsPadding.onOneLine {t : List Char} (ht : IsPadding t) : onOneLine t = true := by
  have hnewline : '\n' ∉ t := fun h => by rcases ht _ h with h | h <;> exact absurd h (by decide)
  simpa [Listing.onOneLine] using hnewline

theorem IsPadding.not_mem {t : List Char} (ht : IsPadding t) {c : Char} (h : c ≠ ' ' ∧ c ≠ '\t') :
    c ∉ t :=
  fun hc => (ht c hc).elim h.1 h.2

theorem IsPadding.isBraceless {t : List Char} (ht : IsPadding t) : IsBraceless t :=
  isBraceless_of_isBlank ht.isBlank

/-- A class of characters without the closing marks. -/
theorem eq_false_of_mem_closingMarks {p : Char → Bool} (hp : closingMarks.any p = false) {c : Char}
    (hc : c ∈ closingMarks) : p c = false := by
  simpa using List.any_eq_false.1 hp c hc

theorem ne_of_mem_closingMarks {c m : Char} (hc : c ∈ closingMarks) (hm : m ∉ closingMarks) :
    c ≠ m :=
  fun e => hm (e ▸ hc)

/-- What is read up to a character ends at the first. -/
theorem takeWhile_ne {m : Char} {a : List Char} (ha : m ∉ a) (b : List Char) :
    (a ++ m :: b).takeWhile (· ≠ m) = a ∧ (a ++ m :: b).dropWhile (· ≠ m) = m :: b :=
  takeWhile_append (fun d hd => by simpa using fun e : d = m => ha (e ▸ hd)) (stops_cons (by simp))

/-- Behind a mark there is no such character to be found. -/
theorem dropWhile_ne {m c : Char} {s t : List Char} (hs : m ∉ s) (hc : c ≠ m) (ht : IsPadding t)
    (hm : m ≠ ' ' ∧ m ≠ '\t') : (s ++ c :: t).dropWhile (· ≠ m) = [] := by
  refine List.dropWhile_eq_nil_iff.2 fun d hd => decide_eq_true fun e => ?_
  subst e
  rcases List.mem_append.1 hd with hd | hd
  · exact hs hd
  · exact (List.mem_cons.1 hd).elim (fun h => hc h.symm) (ht.not_mem hm)

theorem not_mem_of_mem_closingMarks {c : Char} (hc : c ∈ closingMarks) {word : List Char}
    (hword : word.all isNamePart = true) : c ∉ word := by
  intro h
  have hpart := eq_false_of_mem_closingMarks (show closingMarks.any isNamePart = false by decide) hc
  exact Bool.false_ne_true (hpart.symm.trans (List.all_eq_true.1 hword c h))

/-- The name of a function behind all its modifiers, with what stands from there on. -/
def lastName? (s : List Char) : Option (List Char × List Char × List Char) :=
  (afterModifiers s).reverse.findSome? fun r => (functionName? r).map fun p => (r, p.1, p.2)

theorem functionStart?_eq (l : List Char) :
    functionStart? l =
      ((lastName? (trimStart l)).map fun p =>
        ((trimStart l).take ((trimStart l).length - p.1.length), p.2.1, p.2.2)).or
      (((keyword? "fun".toList (trimStart l)).bind name?).map fun p => ([], p.1, p.2)) := by
  unfold functionStart? lastName?
  dsimp only
  rw [List.map_findSome?]
  congr 2
  funext r
  simp only [Function.comp_apply, Option.map_map]
  rfl

theorem lastName?_of_none {s : List Char} (h : modifier? s = none) : lastName? s = none := by
  rw [lastName?, afterModifiers_of_none h]
  rfl

theorem lastName?_of_some {s r : List Char} (h : modifier? s = some r) :
    lastName? s = (lastName? r).or ((functionName? r).map fun p => (r, p.1, p.2)) := by
  rw [lastName?, afterModifiers_of_some h, List.reverse_cons, List.findSome?_append,
    List.findSome?_singleton, lastName?]

/-- Behind a parenthesis, and behind nothing, there is no name. -/
theorem lastName?_of_head {s r : List Char} (h : modifier? s = some r)
    (hr : r = [] ∨ r.head? = some '(') : lastName? s = none := by
  have hnone : modifier? r = none ∧ functionName? r = none := by
    obtain rfl | hr := hr
    · exact ⟨rfl, rfl⟩
    · obtain ⟨q, rfl⟩ := List.head?_eq_some_iff.1 hr
      exact ⟨rfl, rfl⟩
  rw [lastName?_of_some h, lastName?_of_none hnone.1, hnone.2]
  rfl

section

variable {c : Char} (hc : c ∈ closingMarks) (s : List Char) {t : List Char}
include hc

theorem isBlank_of_mem_closingMarks : isBlank c = false :=
  eq_false_of_mem_closingMarks (by decide) hc

theorem trimStart_mark : trimStart (s ++ c :: t) = trimStart s ++ c :: t :=
  trimStart_append_cons s t (isBlank_of_mem_closingMarks hc)

theorem keyword?_mark {word : List Char} (hword : word.all isNamePart = true) :
    keyword? word (s ++ c :: t) = (keyword? word s).map (· ++ c :: t) :=
  keyword?_append_cons s t (not_mem_of_mem_closingMarks hc hword) (isBlank_of_mem_closingMarks hc)

theorem name?_mark : name? (s ++ c :: t) = (name? s).map fun p => (p.1, p.2 ++ c :: t) :=
  name?_append_cons s t (eq_false_of_mem_closingMarks (by decide) hc)

theorem decimals?_mark :
    decimals? (s ++ c :: t) = (decimals? s).map fun p => (p.1, p.2 ++ c :: t) := by
  have hdigit : isDecimal c = false := eq_false_of_mem_closingMarks (by decide) hc
  unfold decimals?
  rw [takeWhile_append_cons s t hdigit, dropWhile_append_cons s t hdigit]
  cases s.takeWhile isDecimal <;> rfl

theorem mark?_mark {m : Char} (hm : m ∉ closingMarks) :
    mark? m (s ++ c :: t) = (mark? m s).map (· ++ c :: t) := by
  unfold mark?
  rw [trimStart_mark hc]
  cases trimStart s with
  | nil =>
    have hne : c ≠ m := fun e => hm (e ▸ hc)
    simp [hne]
  | cons d r =>
    dsimp only [List.cons_append]
    split <;> rfl

theorem funName?_mark : (keyword? "fun".toList (s ++ c :: t)).bind name? =
    ((keyword? "fun".toList s).bind name?).map fun p => (p.1, p.2 ++ c :: t) := by
  rw [keyword?_mark hc s (by decide)]
  cases keyword? "fun".toList s with
  | none => rfl
  | some r => exact name?_mark hc r

theorem functionName?_mark :
    functionName? (s ++ c :: t) = (functionName? s).map fun p => (p.1, p.2 ++ c :: t) := by
  unfold functionName?
  rw [funName?_mark hc, name?_mark hc]
  cases (keyword? "fun".toList s).bind name? <;> rfl

/-- A scope ends before the last mark, or with it. -/
theorem scope?_mark :
    (∀ u, scope? (s ++ c :: u) = (scope? s).map (· ++ c :: u)) ∨
      ∀ u, scope? (s ++ c :: u) = some u := by
  have hword : c ∉ "friend".toList ∧ c ∉ "package".toList :=
    ⟨not_mem_of_mem_closingMarks hc (by decide), not_mem_of_mem_closingMarks hc (by decide)⟩
  unfold scope?
  simp only [mark?_mark hc s (show '(' ∉ closingMarks by decide)]
  cases mark? '(' s with
  | none => exact .inl fun u => rfl
  | some a =>
    have hor : ∀ u, (afterPrefix? "friend".toList (trimStart (a ++ c :: u))).or
          (afterPrefix? "package".toList (trimStart (a ++ c :: u))) =
        ((afterPrefix? "friend".toList (trimStart a)).or
          (afterPrefix? "package".toList (trimStart a))).map (· ++ c :: u) := by
      intro u
      rw [trimStart_mark hc, afterPrefix?_append_cons _ _ hword.1,
        afterPrefix?_append_cons _ _ hword.2]
      cases afterPrefix? "friend".toList (trimStart a) <;> rfl
    simp only [Option.map_some, bind, Option.bind_some, hor]
    cases (afterPrefix? "friend".toList (trimStart a)).or
        (afterPrefix? "package".toList (trimStart a)) with
    | none => exact .inl fun u => rfl
    | some b =>
      simp only [Option.map_some, Option.bind_some, mark?, trimStart_mark hc]
      cases trimStart b with
      | nil =>
        by_cases hclose : c = ')'
        · exact .inr fun u => by simp [hclose]
        · exact .inl fun u => by simp [hclose]
      | cons d q =>
        left
        intro u
        by_cases hd : d = ')' <;> simp [hd]

theorem plain_mark : (plainModifiers.findSome? fun w => keyword? w.toList (s ++ c :: t)) =
    (plainModifiers.findSome? fun w => keyword? w.toList s).map (· ++ c :: t) := by
  have hwords : ∀ w ∈ plainModifiers, w.toList.all isNamePart = true := by decide
  generalize plainModifiers = ws at hwords
  induction ws with
  | nil => rfl
  | cons w ws ih =>
    rw [List.findSome?_cons, List.findSome?_cons, keyword?_mark hc s (hwords w List.mem_cons_self),
      ih fun v hv => hwords v (List.mem_cons_of_mem w hv)]
    cases keyword? w.toList s <;> rfl

/-- A modifier with a scope ends before the last mark, or the scope ends with it. -/
theorem scopedModifier?_mark :
    (∀ u, scopedModifier? (s ++ c :: u) = (scopedModifier? s).map (· ++ c :: u)) ∨
      ∃ a, s = "public".toList ++ a ∧ ∀ u, scope? (a ++ c :: u) = some u := by
  have hword : c ∉ "public".toList := not_mem_of_mem_closingMarks hc (by decide)
  unfold scopedModifier?
  simp only [afterPrefix?_append_cons s _ hword]
  cases hpublic : afterPrefix? "public".toList s with
  | none => exact .inl fun u => rfl
  | some a =>
    rcases scope?_mark hc a with hscope | hscope
    · left
      intro u
      simp only [Option.map_some, bind, Option.bind_some, hscope]
      cases scope? a with
      | none => rfl
      | some b => exact keyword?_append_cons b u List.not_mem_nil (isBlank_of_mem_closingMarks hc)
    · exact .inr ⟨a, afterPrefix?_eq_some_iff.1 hpublic, hscope⟩

/-- Modifiers end before the last mark.  Where `public` has a scope that ends with
it, there is no name. -/
theorem modifier?_mark :
    (∀ u, modifier? (s ++ c :: u) = (modifier? s).map (· ++ c :: u)) ∨
      ∀ u, IsPadding u → lastName? (s ++ c :: u) = none := by
  rcases scopedModifier?_mark hc s with hscoped | ⟨a, rfl, hscope⟩
  · left
    intro u
    rw [modifier?, hscoped, plain_mark hc, modifier?]
    cases scopedModifier? s <;> rfl
  · right
    intro u hu
    have hparen : (trimStart (a ++ c :: u)).head? = some '(' := by
      have h := hscope u
      simp only [scope?, bind, Option.bind_eq_some_iff] at h
      obtain ⟨b, hb, -⟩ := h
      unfold mark? at hb
      split at hb
      · next d r hd =>
        split at hb
        · next he => rw [hd, he]; rfl
        · cases hb
      · cases hb
    cases hmod : modifier? ("public".toList ++ a ++ c :: u) with
    | none => exact lastName?_of_none hmod
    | some r =>
      refine lastName?_of_head hmod ?_
      rcases Option.or_eq_some_iff.1 hmod with h | ⟨-, h⟩
      · left
        rw [List.append_assoc] at h
        simp only [scopedModifier?, afterPrefix?_eq_some_iff.2 rfl, bind,
          Option.bind_some, hscope] at h
        obtain ⟨d, v, rfl, -, rfl⟩ := keyword?_eq_some_iff.1 h
        exact List.dropWhile_eq_nil_iff.2 fun e he =>
          List.all_eq_true.1 hu.isBlank e (List.mem_cons_of_mem _ he)
      · right
        obtain ⟨w, hw, h⟩ := List.exists_of_findSome?_eq_some h
        simp only [plainModifiers, List.mem_cons, List.not_mem_nil, or_false] at hw
        rcases hw with rfl | rfl | rfl | rfl | rfl
        · obtain ⟨d, v, hv, hd, rfl⟩ := keyword?_eq_some_iff.1 h
          rw [List.append_assoc] at hv
          rw [List.append_cancel_left hv] at hparen
          rwa [trimStart, List.dropWhile_cons_of_pos hd] at hparen
        all_goals exact absurd h (by simp [keyword?, afterPrefix?])

/-- The last name ends before the last mark, too. -/
theorem lastName?_mark : ∃ x : Option (List Char × List Char × List Char), ∀ u, IsPadding u →
    lastName? (s ++ c :: u) = x.map fun p => (p.1 ++ c :: u, p.2.1, p.2.2 ++ c :: u) := by
  induction h : s.length using Nat.strongRecOn generalizing s with
  | _ n ih =>
    rcases modifier?_mark hc s with hmod | hnone
    · cases hs : modifier? s with
      | none => exact ⟨none, fun u _ => lastName?_of_none (by rw [hmod, hs]; rfl)⟩
      | some r =>
        obtain ⟨x, hx⟩ := ih r.length (h ▸ length_lt_of_modifier? hs) r rfl
        refine ⟨x.or ((functionName? r).map fun p => (r, p.1, p.2)), fun u hu => ?_⟩
        have hmodu : modifier? (s ++ c :: u) = some (r ++ c :: u) := by rw [hmod, hs]; rfl
        rw [lastName?_of_some hmodu, hx u hu, functionName?_mark hc]
        cases x with
        | some _ => rfl
        | none => cases functionName? r <;> rfl
    · exact ⟨none, hnone⟩

/-! ## Functions -/

/-- The beginning of a function header ends before the last mark. -/
theorem functionStart?_mark : ∃ x : Option (List Char × List Char × List Char), ∀ u, IsPadding u →
    functionStart? (s ++ c :: u) = x.map fun p => (p.1, p.2.1, p.2.2 ++ c :: u) := by
  obtain ⟨x, hx⟩ := lastName?_mark hc (trimStart s)
  have htake : ∀ r u,
      (trimStart s ++ c :: u).take ((trimStart s ++ c :: u).length - (r ++ c :: u).length) =
        (trimStart s).take ((trimStart s).length - r.length) := by
    intro r u
    have hlength : (trimStart s ++ c :: u).length - (r ++ c :: u).length =
        (trimStart s).length - r.length := by
      simp only [List.length_append]
      omega
    rw [hlength, List.take_append_of_le_length (Nat.sub_le _ _)]
  refine ⟨(x.map fun p => ((trimStart s).take ((trimStart s).length - p.1.length), p.2.1, p.2.2)).or
    (((keyword? "fun".toList (trimStart s)).bind name?).map fun p => ([], p.1, p.2)),
    fun u hu => ?_⟩
  have hfun : (keyword? "fun".toList (trimStart s ++ c :: u)).bind name? =
      ((keyword? "fun".toList (trimStart s)).bind name?).map fun p => (p.1, p.2 ++ c :: u) :=
    funName?_mark hc _
  rw [functionStart?_eq, trimStart_mark hc, hx u hu, hfun]
  cases x with
  | some p => simp only [Option.map_some, Option.some_or, htake]
  | none => cases (keyword? "fun".toList (trimStart s)).bind name? <;> rfl

/-- An operand ends before the last mark. -/
theorem operand?_mark : ∃ x : Option (Option (List Char) × List Char), ∀ u, IsPadding u →
    operand? (s ++ c :: u) = x.map fun p => (p.1, p.2 ++ c :: u) := by
  have hopen : c ≠ '[' := ne_of_mem_closingMarks hc (by decide)
  have hclose : c ≠ ']' := ne_of_mem_closingMarks hc (by decide)
  cases s with
  | nil => exact ⟨some (none, []), fun u _ => by simp [operand?, hopen]⟩
  | cons d r =>
    by_cases hd : d = '['
    · subst hd
      by_cases hr : ']' ∈ r
      · obtain ⟨a, b, rfl, ha⟩ := List.eq_append_cons_of_mem hr
        refine ⟨some (some (trim a), b), fun u _ => ?_⟩
        simp only [operand?, List.cons_append, List.append_assoc, takeWhile_ne ha, Option.map_some]
      · refine ⟨none, fun u hu => ?_⟩
        simp only [operand?, List.cons_append, dropWhile_ne hr hclose hu (by decide),
          Option.map_none]
    · exact ⟨some (none, d :: r), fun u _ => by simp [operand?, hd]⟩

/-- The last mark cannot be trimmed away, and blanks behind it are. -/
theorem trim_mark_ne_nil : trim (s ++ c :: t) ≠ [] := fun h => by
  have := trim_eq_nil_iff.1 h c (by simp)
  rw [isBlank_of_mem_closingMarks hc] at this
  cases this

end

section

variable {c : Char} (hc : c ∈ closingMarks) (s : List Char) {t : List Char} (ht : IsPadding t)
include hc ht

omit hc in
theorem trim_padded : trim (s ++ c :: t) = trim (s ++ [c]) := by
  have := trim_append ht.isBlank (s ++ [c])
  rwa [List.append_assoc] at this

omit hc in
theorem trimEnd_padded : trimEnd (s ++ c :: t) = trimEnd (s ++ [c]) := by
  have := trimEnd_append ht.isBlank (s ++ [c])
  rwa [List.append_assoc] at this

theorem closedValue?_padded (m : Char) :
    closedValue? m (s ++ c :: t) = closedValue? m (s ++ [c]) := by
  unfold closedValue?
  rw [trim_padded s ht]
  cases h : trim (s ++ [c]) with
  | nil => exact absurd h (trim_mark_ne_nil hc s)
  | cons d r => rfl

omit hc in
theorem all_isBlank_padded : (s ++ c :: t).all isBlank = (s ++ [c]).all isBlank := by
  simp [ht.isBlank]

omit hc in
theorem onOneLine_padded : onOneLine (s ++ c :: t) = onOneLine (s ++ [c]) := by
  have := ht.onOneLine
  simp_all [onOneLine]

/-! ## Modules, uses and constants -/

theorem modulePath?_padded : modulePath? (s ++ c :: t) = modulePath? (s ++ [c]) := by
  have hpart : isModulePart c = false := eq_false_of_mem_closingMarks (by decide) hc
  unfold modulePath?
  rw [trimStart_mark hc, trimStart_mark hc, keyword?_mark hc _ (by decide),
    keyword?_mark hc _ (by decide)]
  cases keyword? "module".toList (trimStart s) with
  | none => rfl
  | some r =>
    simp only [Option.map_some, bind, Option.bind_some, takeWhile_append_cons r _ hpart,
      dropWhile_append_cons r _ hpart, trimStart_mark hc]
    cases trimStart (r.dropWhile isModulePart) with
    | nil =>
      by_cases hbrace : c = '{'
      · simp [hbrace, ht.isBlank]
      · simp [hbrace]
    | cons d q =>
      by_cases hbrace : d = '{'
      · simp only [hbrace, List.cons_append, all_isBlank_padded q ht]
      · simp [hbrace]

theorem moduleName?_padded : moduleName? (s ++ c :: t) = moduleName? (s ++ [c]) := by
  rw [moduleName?, modulePath?_padded hc s ht, moduleName?]

theorem useDecl?_padded : useDecl? (s ++ c :: t) = useDecl? (s ++ [c]) := by
  have hword : c ∉ "use".toList := not_mem_of_mem_closingMarks hc (by decide)
  have hblank := isBlank_of_mem_closingMarks hc
  unfold useDecl?
  rw [trimStart_mark hc, trimStart_mark hc, afterPrefix?_append_cons _ _ hword,
    afterPrefix?_append_cons _ _ hword]
  cases afterPrefix? "use".toList (trimStart s) with
  | none => rfl
  | some r =>
    simp only [Option.map_some, bind, Option.bind_some, takeWhile_append_cons r _ hblank,
      trim_padded r ht]

theorem constDecl?_padded : constDecl? (s ++ c :: t) = constDecl? (s ++ [c]) := by
  unfold constDecl?
  rw [trimStart_mark hc, trimStart_mark hc, keyword?_mark hc _ (by decide),
    keyword?_mark hc _ (by decide)]
  cases keyword? "const".toList (trimStart s) with
  | none => rfl
  | some r =>
    simp only [Option.map_some, bind, Option.bind_some, name?_mark hc]
    cases name? r with
    | none => rfl
    | some p =>
      simp only [Option.map_some, Option.bind_some,
        mark?_mark hc _ (show ':' ∉ closingMarks by decide)]
      cases mark? ':' p.2 with
      | none => rfl
      | some q =>
        simp only [Option.map_some, Option.bind_some]
        by_cases hequals : '=' ∈ q
        · obtain ⟨a, b, rfl, ha⟩ := List.eq_append_cons_of_mem hequals
          simp only [List.append_assoc, List.cons_append, takeWhile_ne ha, afterPrefix?, if_pos,
            Option.bind_some, closedValue?_padded hc b ht]
        · -- without an equals sign there is no constant
          have hnone : ∀ u, IsPadding u → (q ++ c :: u).dropWhile (· ≠ '=') = [] := fun u hu =>
            dropWhile_ne hequals (ne_of_mem_closingMarks hc (by decide)) hu (by decide)
          simp only [hnone t ht, hnone [] .nil, afterPrefix?, Option.bind_none,
            Option.bind_fun_none, ite_self]

/-! ## Structs -/

omit hc in
theorem endsHeader_padded : endsHeader (s ++ c :: t) = endsHeader (s ++ [c]) := by
  cases s with
  | nil =>
    by_cases hbrace : c = '{'
    · simp only [hbrace, List.nil_append, endsHeader, ht.onOneLine, IsPadding.nil.onOneLine]
    · simp [endsHeader, hbrace]
  | cons d s =>
    by_cases hbrace : d = '{'
    · simp only [hbrace, List.cons_append, endsHeader, onOneLine_padded s ht]
    · simp [endsHeader, hbrace]

omit hc ht in
/-- The abilities end before the last mark, or at the end of the line. -/
theorem abilities_or (q : List Char) :
    (∃ g w, ∀ u, IsPadding u →
      (q ++ c :: u).takeWhile isAbilityPart = g ∧
        (q ++ c :: u).dropWhile isAbilityPart = w ++ c :: u) ∨
    ∀ u, IsPadding u →
      (q ++ c :: u).takeWhile isAbilityPart = q ++ c :: u ∧
        (q ++ c :: u).dropWhile isAbilityPart = [] := by
  by_cases hq : ∀ d ∈ q ++ [c], isAbilityPart d = true
  · refine .inr fun u hu => ?_
    have hall : ∀ d ∈ q ++ c :: u, isAbilityPart d = true := by
      intro d hd
      rw [List.append_cons] at hd
      rcases List.mem_append.1 hd with hd | hd
      · exact hq d hd
      · rcases hu d hd with rfl | rfl <;> rfl
    exact ⟨List.takeWhile_eq_self_iff.2 hall, List.dropWhile_eq_nil_iff.2 hall⟩
  · left
    by_cases hpart : isAbilityPart c = true
    · -- what ends them stands before the mark
      have hq : ¬ ∀ d ∈ q, isAbilityPart d = true := fun h => hq fun d hd => by
        rcases List.mem_append.1 hd with hd | hd
        · exact h d hd
        · rwa [List.mem_singleton.1 hd]
      refine ⟨q.takeWhile isAbilityPart, q.dropWhile isAbilityPart, fun u _ => ⟨?_, ?_⟩⟩
      · rw [List.takeWhile_append, if_neg]
        exact fun hlen =>
          hq (List.takeWhile_eq_self_iff.1 ((List.takeWhile_prefix _).eq_of_length hlen))
      · rw [List.dropWhile_append, if_neg]
        exact fun h => hq (List.dropWhile_eq_nil_iff.1 (List.isEmpty_iff.1 h))
    · have hpart : isAbilityPart c = false := by simpa using hpart
      exact ⟨_, _, fun u _ => ⟨takeWhile_append_cons q u hpart, dropWhile_append_cons q u hpart⟩⟩

theorem abilityList?_padded : abilityList? (s ++ c :: t) = abilityList? (s ++ [c]) := by
  have hblank := isBlank_of_mem_closingMarks hc
  unfold abilityList?
  simp only [takeWhile_append_cons s _ hblank, trimStart_mark hc]
  rcases abilities_or (c := c) (trimStart s) with ⟨g, w, hcut⟩ | hall
  · rw [(hcut t ht).1, (hcut t ht).2, (hcut [] .nil).1, (hcut [] .nil).2, endsHeader_padded w ht]
  · rw [(hall t ht).1, (hall t ht).2, (hall [] .nil).1, (hall [] .nil).2, trimEnd_padded _ ht]
    simp

theorem abilities?_padded : abilities? (s ++ c :: t) = abilities? (s ++ [c]) := by
  have hword : c ∉ "has".toList := not_mem_of_mem_closingMarks hc (by decide)
  unfold abilities?
  rw [trimStart_mark hc, trimStart_mark hc, afterPrefix?_append_cons _ _ hword,
    afterPrefix?_append_cons _ _ hword]
  cases afterPrefix? "has".toList (trimStart s) with
  | none => simp only [Option.map_none, endsHeader_padded _ ht]
  | some r => exact abilityList?_padded hc r ht

theorem structTail?_padded : structTail? (s ++ c :: t) = structTail? (s ++ [c]) := by
  rw [← structTail?_trimStart (s ++ c :: t), ← structTail?_trimStart (s ++ [c]), trimStart_mark hc,
    trimStart_mark hc]
  have hne : c ≠ '<' := ne_of_mem_closingMarks hc (by decide)
  by_cases hangle : (trimStart s).head? = some '<'
  · obtain ⟨r, hr⟩ := List.head?_eq_some_iff.1 hangle
    rw [hr]
    by_cases hclose : '>' ∈ r
    · obtain ⟨q, v, rfl, hq⟩ := List.eq_append_cons_of_mem hclose
      simp only [List.cons_append, List.append_assoc, structTail?_of_angle hq,
        abilities?_padded hc v ht]
    · have hnone : ∀ u, IsPadding u → structTail? ('<' :: (r ++ c :: u)) = none := by
        intro u hu
        have hnil := dropWhile_ne hclose (ne_of_mem_closingMarks hc (by decide)) hu (by decide)
        have hstart : trimStart ('<' :: (r ++ c :: u)) = '<' :: (r ++ c :: u) := rfl
        unfold structTail?
        rw [hstart]
        simp only [hnil, bind, Option.bind_none]
      rw [List.cons_append, List.cons_append, hnone t ht, hnone [] .nil]
  · have hmore : ∀ u, (trimStart (trimStart s ++ c :: u)).head? ≠ some '<' := by
      intro u
      rw [trimStart_mark hc,
        show trimStart (trimStart s) = trimStart s from List.dropWhile_idempotent _ _]
      cases hnil : trimStart s with
      | nil => simpa using hne
      | cons d r => simpa [hnil] using hangle
    rw [structTail?_of_blank (hmore t), structTail?_of_blank (hmore []), abilities?_padded hc _ ht]

theorem structParts?_padded : structParts? (s ++ c :: t) = structParts? (s ++ [c]) := by
  have hpublic : ∀ u,
      (keyword? "public".toList (trimStart (s ++ c :: u))).getD (trimStart (s ++ c :: u)) =
        (keyword? "public".toList (trimStart s)).getD (trimStart s) ++ c :: u := by
    intro u
    rw [trimStart_mark hc, keyword?_mark hc _ (by decide)]
    cases keyword? "public".toList (trimStart s) <;> rfl
  unfold structParts?
  simp only [hpublic, keyword?_mark hc _ (show "struct".toList.all isNamePart = true by decide)]
  cases keyword? "struct".toList ((keyword? "public".toList (trimStart s)).getD (trimStart s)) with
  | none => rfl
  | some r =>
    simp only [Option.map_some, bind, Option.bind_some, name?_mark hc]
    cases name? r with
    | none => rfl
    | some p =>
      simp only [Option.map_some, Option.bind_some, structTail?_padded hc p.2 ht,
        abilityList?_padded hc p.2 ht]

theorem structHeader?_padded : structHeader? (s ++ c :: t) = structHeader? (s ++ [c]) := by
  rw [structHeader?, structParts?_padded hc s ht, structHeader?]

/-! ## Functions -/

omit hc in
/-- No bracket has its partner among blanks. -/
theorem splitAtClose_append_padding (d : Nat) :
    splitAtClose d (s ++ t) = (splitAtClose d s).map fun p => (p.1, p.2 ++ t) := by
  induction s generalizing d with
  | nil =>
    induction t generalizing d with
    | nil => rfl
    | cons b t ih =>
      have hb : isOpening b = false ∧ isClosing b = false := by
        rcases ht b List.mem_cons_self with rfl | rfl <;> exact ⟨rfl, rfl⟩
      have := ih (fun e he => ht e (List.mem_cons_of_mem b he)) d
      rw [List.nil_append] at this
      simp [splitAtClose, hb, this]
  | cons b s ih =>
    have hmap : ∀ e, (splitAtClose e (s ++ t)).map (fun p => (b :: p.1, p.2)) =
        ((splitAtClose e s).map fun p => (b :: p.1, p.2)).map fun p => (p.1, p.2 ++ t) := by
      intro e
      rw [ih, Option.map_map, Option.map_map]
      rfl
    rw [List.cons_append, splitAtClose_cons, splitAtClose_cons, hmap, hmap, hmap]
    split
    · rfl
    · split
      · split <;> rfl
      · rfl

theorem typeParameters?_padded :
    typeParameters? (s ++ c :: t) =
      (typeParameters? (s ++ [c])).map fun p => (p.1, if p.2 = [] then [] else p.2 ++ t) := by
  have hangle : c ≠ '<' := ne_of_mem_closingMarks hc (by decide)
  unfold typeParameters?
  rw [trimStart_mark hc, trimStart_mark hc]
  cases trimStart s with
  | nil => simp [hangle]
  | cons d r =>
    by_cases hd : d = '<'
    · have hsplit := splitAtClose_append_padding (r ++ [c]) ht 0
      rw [List.append_assoc, List.singleton_append] at hsplit
      simp only [hd, List.cons_append, enclosed?, hsplit, Option.map_map]
      congr 1
      funext p
      simp only [Function.comp_apply, trimStart_append_blanks ht.isBlank]
    · simp [hd]

/-- **A function header is read with blanks behind its last mark as without.** -/
theorem functionHeader?_padded : functionHeader? (s ++ c :: t) = functionHeader? (s ++ [c]) := by
  obtain ⟨x, hx⟩ := functionStart?_mark hc s
  unfold functionHeader?
  rw [hx t ht, hx [] .nil]
  cases x with
  | none => rfl
  | some p =>
    obtain ⟨modifiers, name, q⟩ := p
    simp only [Option.map_some, bind, Option.bind_some, typeParameters?_padded hc q ht]
    split
    · rfl
    · cases typeParameters? (q ++ [c]) with
      | none => rfl
      | some ps =>
        obtain ⟨params, r⟩ := ps
        have hparen : afterPrefix? ['('] (if r = [] then [] else r ++ t) =
            (afterPrefix? ['('] r).map (· ++ t) := by
          cases r with
          | nil => rfl
          | cons d r => by_cases hd : '(' = d <;> simp [afterPrefix?, hd]
        simp only [Option.map_some, Option.bind_some, hparen]
        cases afterPrefix? ['('] r with
        | none => rfl
        | some v =>
          simp only [Option.map_some, Option.bind_some, enclosed?, splitAtClose_append_padding v ht]
          cases splitAtClose 0 v with
          | none => rfl
          | some e =>
            simp only [Option.map_some, Option.bind_some, returnType, trim_append ht.isBlank]

theorem isSome_functionStart?_padded :
    (functionStart? (s ++ c :: t)).isSome = (functionStart? (s ++ [c])).isSome := by
  obtain ⟨x, hx⟩ := functionStart?_mark hc s
  rw [hx t ht, hx [] .nil, Option.isSome_map, Option.isSome_map]

theorem opensBlock_padded : opensBlock (s ++ c :: t) = opensBlock (s ++ [c]) := by
  rw [opensBlock, structParts?_padded hc s ht, isSome_functionStart?_padded hc s ht, opensBlock]

/-! ## Lines of bodies -/

omit ht in
theorem startsInstruction_padded :
    startsInstruction (s ++ c :: t) = startsInstruction (s ++ [c]) := by
  have hcolon : c ≠ ':' := ne_of_mem_closingMarks hc (by decide)
  unfold startsInstruction
  rw [trimStart_mark hc, trimStart_mark hc, decimals?_mark hc, decimals?_mark hc]
  cases decimals? (trimStart s) with
  | none => rfl
  | some p =>
    obtain ⟨digits, r⟩ := p
    cases r with
    | nil => simp [hcolon]
    | cons d r => by_cases hd : d = ':' <;> simp [hd]

theorem isLabel_padded : isLabel (s ++ c :: t) = isLabel (s ++ [c]) := by
  have hletter : c ≠ 'B' := ne_of_mem_closingMarks hc (by decide)
  have hcolon : c ≠ ':' := ne_of_mem_closingMarks hc (by decide)
  unfold isLabel
  rw [trimStart_mark hc, trimStart_mark hc]
  cases trimStart s with
  | nil => simp [hletter]
  | cons d r =>
    by_cases hd : d = 'B'
    · simp only [hd, List.cons_append, decimals?_mark hc]
      cases decimals? r with
      | none => rfl
      | some p =>
        obtain ⟨digits, q⟩ := p
        cases q with
        | nil => simp [hcolon]
        | cons e q =>
          by_cases he : e = ':'
          · simp only [he, Option.map_some, List.cons_append, all_isBlank_padded q ht]
          · simp [he]
    · simp [hd]

theorem slotDecl?_padded : slotDecl? (s ++ c :: t) = slotDecl? (s ++ [c]) := by
  have hletter : c ≠ 'L' := ne_of_mem_closingMarks hc (by decide)
  have hcolon : c ∉ [':'] := fun h => ne_of_mem_closingMarks hc (by decide) (List.mem_singleton.1 h)
  unfold slotDecl?
  rw [trimStart_mark hc, trimStart_mark hc]
  cases trimStart s with
  | nil => simp [hletter]
  | cons d r =>
    by_cases hd : d = 'L'
    · simp only [hd, List.cons_append, decimals?_mark hc]
      cases decimals? r with
      | none => rfl
      | some p =>
        simp only [Option.map_some, bind, Option.bind_some, afterPrefix?_append_cons _ _ hcolon]
        cases afterPrefix? [':'] p.2 with
        | none => rfl
        | some q =>
          simp only [Option.map_some, Option.bind_some, trimStart_mark hc, name?_mark hc]
          cases name? (trimStart q) with
          | none => rfl
          | some n =>
            simp only [Option.map_some, Option.bind_some,
              mark?_mark hc _ (show ':' ∉ closingMarks by decide)]
            cases mark? ':' n.2 with
            | none => rfl
            | some v => simp only [Option.map_some, Option.bind_some, closedValue?_padded hc v ht]
    · simp [hd]

theorem remark?_padded : remark? (s ++ c :: t) = remark? (s ++ [c]) := by
  cases s with
  | nil =>
    have hopen : c ≠ '(' := ne_of_mem_closingMarks hc (by decide)
    have hblank : ¬ isBlank c = true := by simp [isBlank_of_mem_closingMarks hc]
    rw [List.nil_append, List.nil_append, remark?_of_ne hopen, remark?_of_ne hopen,
      if_neg hblank, if_neg hblank]
  | cons d r =>
    have htrim := trim_padded (c := c) (d :: r) ht
    rw [List.cons_append, List.cons_append] at htrim ⊢
    by_cases hd : d = '('
    · rw [hd, remark?_paren, remark?_paren, trimEnd_padded r ht]
    · rw [remark?_of_ne hd, remark?_of_ne hd, htrim]

theorem instruction?_padded : instruction? (s ++ c :: t) = instruction? (s ++ [c]) := by
  have hcolon : c ∉ [':'] := fun h => ne_of_mem_closingMarks hc (by decide) (List.mem_singleton.1 h)
  unfold instruction?
  rw [trimStart_mark hc, trimStart_mark hc, decimals?_mark hc, decimals?_mark hc]
  cases decimals? (trimStart s) with
  | none => rfl
  | some p =>
    simp only [Option.map_some, bind, Option.bind_some, afterPrefix?_append_cons _ _ hcolon]
    cases afterPrefix? [':'] p.2 with
    | none => rfl
    | some q =>
      simp only [Option.map_some, Option.bind_some, trimStart_mark hc, name?_mark hc]
      cases name? (trimStart q) with
      | none => rfl
      | some n =>
        obtain ⟨x, hx⟩ := operand?_mark hc n.2
        simp only [Option.map_some, Option.bind_some, hx t ht, hx [] .nil]
        cases x with
        | none => rfl
        | some r => simp only [Option.map_some, Option.bind_some, remark?_padded hc r.2 ht]

theorem bodyLine_padded : bodyLine (s ++ c :: t) = bodyLine (s ++ [c]) := by
  rw [bodyLine, isLabel_padded hc s ht, slotDecl?_padded hc s ht,
    instruction?_padded hc s ht, bodyLine]

end

/-! ## Fields -/

section

variable {t : List Char} (ht : IsPadding t)
include ht

theorem closedValue?_append_padding {s : List Char} (hs : trim s ≠ []) (m : Char) :
    closedValue? m (s ++ t) = closedValue? m s := by
  unfold closedValue?
  rw [trim_append ht.isBlank]
  cases h : trim s with
  | nil => exact absurd h hs
  | cons d r => rfl

omit ht in
/-- Of blanks only blanks are read. -/
theorem trim_of_closedValue? {s v : List Char} (hs : trim s = []) {m : Char}
    (h : closedValue? m s = some v) :
    trim v = [] := by
  unfold closedValue? at h
  rw [hs] at h
  obtain ⟨d, hd, rfl⟩ := Option.map_eq_some_iff.1 h
  have hmem : d ∈ s := (List.mem_filter.1 (List.mem_of_getLast? hd)).1
  exact trim_eq_nil_iff.2 fun e he => List.mem_singleton.1 he ▸ trim_eq_nil_iff.1 hs d hmem

/-- **A field is read with blanks behind it as without.** -/
theorem field?_append (l : List Char) : field? (l ++ t) = field? l := by
  have hblank : ∀ n s, trim s = [] → ((closedValue? ',' s).bind fun value =>
      if trim (dropEndWhile (· == ',') (trim value)) = [] then none
      else some (Field.mk n (String.ofList (trim (dropEndWhile (· == ',') (trim value)))))) =
        none := by
    intro n s hs
    cases h : closedValue? ',' s with
    | none => rfl
    | some v =>
      rw [Option.bind_some, trim_of_closedValue? hs h]
      rfl
  unfold field?
  rw [trimStart_append_blanks ht.isBlank]
  by_cases hl : trimStart l = []
  · rw [if_pos hl, hl]
  · simp only [if_neg hl, name?_append_blanks ht.isBlank]
    cases name? (trimStart l) with
    | none => rfl
    | some p =>
      simp only [Option.map_some, bind, Option.bind_some, mark?_append_blanks ht.isBlank]
      cases mark? ':' p.2 with
      | none => rfl
      | some q =>
        simp only [Option.map_some, Option.bind_some]
        by_cases hq : trim q = []
        · rw [hblank _ q hq, hblank _ (q ++ t) (by rw [trim_append ht.isBlank, hq])]
        · rw [closedValue?_append_padding ht hq]

end

end PseudoMove.Listing
