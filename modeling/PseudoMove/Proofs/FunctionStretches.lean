import PseudoMove.Proofs.FunctionParts
import PseudoMove.Proofs.TrailingReturn

/-!
# Which lines belong to which function

The headers of functions cut a listing into stretches, each a header with the lines up to the next
one.  A listing has one function for each stretch, in the order of the text: the header is read from
the first line of the stretch and the body consists of lines of the rest, so no line belongs to two
functions (`functions_read`).

* `readOutside_of_functionHeader?` — a line that can be read as a function header is read
  as one wherever it stands;
* `holds_foundFrom` — reading on from any scope, where a function that is open takes lines up to the
  next header (`GoesOnWith`).
-/

namespace PseudoMove

open Text

/-- The function that a scope is in, with the lines of its body so far, newest first. -/
def Scope.function? : Scope → Option (FunctionListing × List String)
  | .inFunction block body _ _ => some (block, body)
  | _ => none

namespace Listing

/-! ## Headers -/

/-- A modifier is one of the words for it, with or without a scope. -/
theorem exists_prefix_of_modifier? {s r : List Char} (h : modifier? s = some r) :
    ∃ w ∈ plainModifiers, w.toList <+: s := by
  rcases Option.or_eq_some_iff.1 h with h | ⟨-, h⟩
  · simp only [scopedModifier?, bind, Option.bind_eq_some_iff] at h
    obtain ⟨a, ha, -⟩ := h
    rw [afterPrefix?_eq_some_iff.1 ha]
    exact ⟨"public", by decide, List.prefix_append _ _⟩
  · obtain ⟨w, hw, h⟩ := List.exists_of_findSome?_eq_some h
    obtain ⟨c, t, rfl, -⟩ := keyword?_eq_some_iff.1 h
    exact ⟨w, hw, List.prefix_append _ _⟩

theorem exists_prefix_of_functionStart? {l : List Char} (h : (functionStart? l).isSome = true) :
    ∃ w ∈ "fun" :: plainModifiers, w.toList <+: trimStart l := by
  rcases isSome_functionStart?_iff.1 h with ⟨r, hr, -⟩ | h
  · cases hm : modifier? (trimStart l) with
    | none =>
      rw [afterModifiers_of_none hm] at hr
      exact absurd hr List.not_mem_nil
    | some q =>
      obtain ⟨w, hw, hprefix⟩ := exists_prefix_of_modifier? hm
      exact ⟨w, List.mem_cons_of_mem _ hw, hprefix⟩
  · obtain ⟨p, hp⟩ := Option.isSome_iff_exists.1 h
    obtain ⟨q, hq, -⟩ := Option.bind_eq_some_iff.1 hp
    obtain ⟨c, t, ht, -⟩ := keyword?_eq_some_iff.1 hq
    exact ⟨"fun", List.mem_cons_self, ht ▸ List.prefix_append _ _⟩

/-- The letters that a function header may begin with. -/
def startLetters : List Char := ['f', 'p', 'e', 'n']

theorem exists_startLetter {l : List Char} (h : (functionStart? l).isSome = true) :
    ∃ c ∈ startLetters, ∃ t, trimStart l = c :: t := by
  obtain ⟨w, hw, t, ht⟩ := exists_prefix_of_functionStart? h
  have hall : ∀ w ∈ "fun" :: plainModifiers,
      w.toList.head?.any (startLetters.contains ·) = true := by decide
  obtain ⟨c, hhead, hc⟩ := (Option.any_eq_true _ _).1 (hall w hw)
  obtain ⟨q, hq⟩ := List.head?_eq_some_iff.1 hhead
  exact ⟨c, List.contains_iff_mem.1 hc, q ++ t, by rw [← ht, hq, List.cons_append]⟩

/-- What begins with one of these letters does not begin with a word that begins with another. -/
theorem afterPrefix?_of_startLetter {c : Char} (hc : c ∈ startLetters) (t : List Char) {d : Char}
    (hd : d ∉ startLetters) (word : List Char) : afterPrefix? (d :: word) (c :: t) = none := by
  have hne : d ≠ c := fun e => hd (e ▸ hc)
  rw [afterPrefix?, if_neg hne]

/-- Behind `public` and blanks, the word `struct` is read as the name of a function. -/
theorem functionHeader?_publicStruct {l s r : List Char}
    (hpublic : keyword? "public".toList (trimStart l) = some s)
    (hstruct : keyword? "struct".toList s = some r) : functionHeader? l = none := by
  obtain ⟨c, t, hl, hc, rfl⟩ := keyword?_eq_some_iff.1 hpublic
  obtain ⟨d, u, hs, hd, -⟩ := keyword?_eq_some_iff.1 hstruct
  have hscope : scopedModifier? (trimStart l) = none := by
    have hblank : trimStart (c :: t) = 's' :: ("truct".toList ++ d :: u) :=
      (List.dropWhile_cons_of_pos hc).trans hs
    rw [scopedModifier?, hl, afterPrefix?_eq_some_iff.2 rfl]
    simp only [bind, Option.bind_some, scope?, mark?, hblank]
    rfl
  have hmodifier : modifier? (trimStart l) = some (trimStart t) := by
    rw [modifier?, hscope, Option.none_or]
    rw [plainModifiers, List.findSome?_cons, hpublic]
  have hrest : afterModifiers (trimStart l) = [trimStart t] := by
    rw [afterModifiers_of_some hmodifier, afterModifiers_of_none (by rw [hs]; rfl)]
  have hname : functionName? (trimStart t) = some ("struct".toList, d :: u) := by
    have hblank : isNamePart d = false := by
      by_contra hpart
      rw [isBlank_of_isNamePart (by simpa using hpart)] at hd
      exact absurd hd (by simp)
    have hidentifier : IsIdentifier "struct".toList := by decide
    have hfun : keyword? "fun".toList ("struct".toList ++ d :: u) = none := rfl
    rw [functionName?, hs, hfun, hidentifier.name?_append (stops_cons hblank)]
    rfl
  rw [functionHeader?, functionStart?]
  simp only [hrest, List.reverse_singleton, List.findSome?_singleton, hname, Option.map_some,
    Option.some_or, bind, Option.bind_some]
  exact if_pos (by decide)

theorem structParts?_of_functionHeader? {l : List Char} {f : FunctionListing}
    (h : functionHeader? l = some f) :
    structParts? l = none := by
  by_contra hsome
  obtain ⟨s, n, r, hstruct, -⟩ := isSome_structParts?_iff.1 (Option.isSome_iff_ne_none.2 hsome)
  cases hpublic : keyword? "public".toList (trimStart l) with
  | some q =>
    rw [hpublic] at hstruct
    rw [functionHeader?_publicStruct hpublic hstruct] at h
    exact absurd h (by simp)
  | none =>
    obtain ⟨p, hp, -⟩ := Option.bind_eq_some_iff.1 h
    obtain ⟨c, hc, t, ht⟩ := exists_startLetter (Option.isSome_iff_exists.2 ⟨p, hp⟩)
    obtain ⟨d, u, hs, -⟩ := keyword?_eq_some_iff.1 hstruct
    rw [hpublic, Option.getD_none, ht] at hs
    exact absurd ((List.cons.inj hs).1 ▸ hc) (by decide)

/-- **A line that can be read as the header of a function is read as one** wherever it stands. -/
theorem readOutside_of_functionHeader? {l : List Char} {f : FunctionListing}
    (h : functionHeader? l = some f) :
    readOutside l = readFunctionLine l := by
  obtain ⟨p, hp, -⟩ := Option.bind_eq_some_iff.1 h
  have hstart : (functionStart? l).isSome = true := Option.isSome_iff_exists.2 ⟨p, hp⟩
  obtain ⟨c, hc, t, ht⟩ := exists_startLetter hstart
  have hword : ∀ d ∉ startLetters, ∀ word, afterPrefix? (d :: word) (trimStart l) = none :=
    fun d hd word => ht ▸ afterPrefix?_of_startLetter hc t hd word
  have hmodule : moduleName? l = none := by
    rw [moduleName?, modulePath?, keyword?, show "module".toList = 'm' :: "odule".toList from rfl,
      hword _ (by decide)]
    rfl
  have huse : useDecl? l = none := by
    rw [useDecl?, show "use".toList = 'u' :: "se".toList from rfl, hword _ (by decide)]
    rfl
  have hconst : constDecl? l = none := by
    rw [constDecl?, keyword?, show "const".toList = 'c' :: "onst".toList from rfl,
      hword _ (by decide)]
    rfl
  have hstruct : structHeader? l = none := by
    rw [structHeader?, structParts?_of_functionHeader? h]
    rfl
  unfold readOutside
  dsimp only
  rw [hmodule, huse, hconst, hstruct]
  dsimp only
  rw [if_pos hstart]
  have hall : startLetters.all (fun c => isBlank c = false ∧ c ≠ '/') = true := by decide
  have htried : IsTried (trimStart l) :=
    ⟨c, by rw [ht, List.head?_cons, Option.mem_some],
      of_decide_eq_true (List.all_eq_true.1 hall c hc)⟩
  have htrim : trim (trimStart l) = trim l := congrArg trimEnd (List.dropWhile_idempotent _ _)
  exact if_neg (htrim ▸ htried.not_passedOver)

/-! ## Stretches -/

/-- A line of a listing, and lines after it. -/
structure Stretch where
  header : List Char
  rest : List (List Char)

/-- The lines of a stretch, in order. -/
def Stretch.lines (s : Stretch) : List (List Char) := s.header :: s.rest

/-- Cuts lines at the headers of functions: the lines before the first one, and the stretches. -/
def stretches : List (List Char) → List (List Char) × List Stretch
  | [] => ([], [])
  | l :: ls =>
    if (functionHeader? l).isSome then ([], ⟨l, (stretches ls).1⟩ :: (stretches ls).2)
    else (l :: (stretches ls).1, (stretches ls).2)

/-- The stretch holds the function: its first line gives the header, and the body consists of lines
of the rest, in which no other function begins. -/
structure Stretch.Holds (s : Stretch) (f : FunctionListing) : Prop where
  header : functionHeader? s.header = some { f with bodyLines := [] }
  rest : ∀ l ∈ s.rest, functionHeader? l = none
  body : f.bodyLines.Sublist (s.rest.map String.ofList)

theorem lines_stretches (ls : List (List Char)) :
    (stretches ls).1 ++ (stretches ls).2.flatMap Stretch.lines = ls := by
  induction ls with
  | nil => rfl
  | cons l ls ih =>
    unfold stretches
    split
    · rw [List.flatMap_cons, Stretch.lines, List.nil_append, List.cons_append, ih]
    · rw [List.cons_append, ih]

theorem functionHeader?_of_mem_stretches {ls : List (List Char)} {l : List Char}
    (h : l ∈ (stretches ls).1) :
    functionHeader? l = none := by
  induction ls with
  | nil => exact absurd h List.not_mem_nil
  | cons k ls ih =>
    unfold stretches at h
    split at h
    · exact absurd h List.not_mem_nil
    · next hk =>
      rcases List.mem_cons.1 h with rfl | h
      · exact Option.not_isSome_iff_eq_none.1 hk
      · exact ih h

/-! ## One line -/

/-- The functions among some declarations. -/
def functionsIn (ds : List Declaration) : List FunctionListing := (ofDeclarations ds).functions

theorem functionsIn_append (ds es : List Declaration) :
    functionsIn (ds ++ es) = functionsIn ds ++ functionsIn es :=
  congrArg Listing.functions (ofDeclarations_append ds es)

theorem functionsIn_readEnd (s : Scope) :
    functionsIn (readEnd s).found = (s.function?.map fun p => finished p.1 p.2).toList := by
  cases s <;> rfl

/-- A header is read as a function whose body is complete, or as one that goes on. -/
theorem readFunctionLine_of_functionHeader? {l : List Char} {f : FunctionListing}
    (h : functionHeader? l = some f) :
    (functionsIn (readFunctionLine l).found = [f] ∧ (readFunctionLine l).scope.function? = none) ∨
      (functionsIn (readFunctionLine l).found = [] ∧
        (readFunctionLine l).scope.function? = some (f, [])) := by
  unfold readFunctionLine
  rw [h]
  dsimp only
  split
  · exact .inl ⟨rfl, rfl⟩
  · exact .inr ⟨rfl, rfl⟩

section

variable {l : List Char} (h : functionHeader? l = none)
include h

/-- Outside all blocks, no other line begins a function. -/
theorem readOutside_of_no_header :
    functionsIn (readOutside l).found = [] ∧ (readOutside l).scope.function? = none := by
  have hfun : readFunctionLine l =
      { scope := .outside, notices := [.signatureRejected (String.ofList (trim l))] } := by
    unfold readFunctionLine
    rw [h]
  unfold readOutside
  rw [hfun]
  dsimp only
  split
  · exact ⟨rfl, rfl⟩
  · cases moduleName? l with
    | some name => exact ⟨rfl, rfl⟩
    | none =>
      cases useDecl? l with
      | some d => exact ⟨rfl, rfl⟩
      | none =>
        cases constDecl? l with
        | some d => exact ⟨rfl, rfl⟩
        | none =>
          cases structHeader? l with
          | some decl =>
            dsimp only
            split <;> exact ⟨rfl, rfl⟩
          | none =>
            dsimp only
            split <;> exact ⟨rfl, rfl⟩

/-- Where no function is open, no other line begins one. -/
theorem readLine_of_no_function {s : Scope} (hs : s.function? = none) :
    functionsIn (readLine s l).found = [] ∧ (readLine s l).scope.function? = none := by
  cases s with
  | outside => exact readOutside_of_no_header h
  | inStruct decl depth opened =>
    unfold readLine
    dsimp only
    split
    · exact readOutside_of_no_header h
    · unfold readInStruct
      dsimp only
      split <;> exact ⟨rfl, rfl⟩
  | inFunction block body depth opened => exact absurd hs (by simp [Scope.function?])

/-- Any other line ends the function that is open, or goes on with it: the line is the next of its
body, or is left out. -/
theorem readLine_of_function {s : Scope} {block : FunctionListing} {body : List String}
    (hs : s.function? = some (block, body)) :
    (functionsIn (readLine s l).found = [finished block body] ∧
      (readLine s l).scope.function? = none) ∨
      functionsIn (readLine s l).found = [] ∧ ∃ body',
        (readLine s l).scope.function? = some (block, body') ∧
        (body' = body ∨ body' = String.ofList l :: body) := by
  cases s with
  | outside => exact absurd hs (by simp [Scope.function?])
  | inStruct decl depth opened => exact absurd hs (by simp [Scope.function?])
  | inFunction block' body' depth opened =>
    obtain ⟨rfl, rfl⟩ := Prod.mk.inj (Option.some.inj hs)
    unfold readLine
    dsimp only
    split
    · obtain ⟨hfound, hscope⟩ := readOutside_of_no_header h
      refine .inl ⟨?_, hscope⟩
      show finished block' body' :: functionsIn (readOutside l).found = _
      rw [hfound]
    · unfold readInFunction
      dsimp only
      split
      · exact .inr ⟨rfl, _, rfl, .inr rfl⟩
      · split
        · exact .inl ⟨rfl, rfl⟩
        · split
          · exact .inr ⟨rfl, _, rfl, .inl rfl⟩
          · exact .inr ⟨rfl, _, rfl, .inr rfl⟩

end

/-! ## All lines -/

/-- From the scope on, lines declare the function that is open, if there is one, with lines of its
body up to the first header, and then the functions `fs`. -/
def GoesOnWith (s : Scope) (ls : List (List Char)) (fs : List FunctionListing) : Prop :=
  match s.function? with
  | none => functionsIn (foundFrom s ls) = fs
  | some (block, body) => ∃ more : List String, more.Sublist ((stretches ls).1.map String.ofList) ∧
      functionsIn (foundFrom s ls) = finished block (more.reverse ++ body) :: fs

theorem stretches_of_header {l : List Char} {f : FunctionListing} (h : functionHeader? l = some f)
    (ls : List (List Char)) :
    stretches (l :: ls) = ([], ⟨l, (stretches ls).1⟩ :: (stretches ls).2) := by
  rw [stretches, h]
  rfl

theorem stretches_of_no_header {l : List Char} (h : functionHeader? l = none)
    (ls : List (List Char)) :
    stretches (l :: ls) = (l :: (stretches ls).1, (stretches ls).2) := by
  rw [stretches, h]
  rfl

/-- A header ends what is open, and its own function takes the lines up to the next header. -/
theorem goesOnWith_header {l : List Char} {f : FunctionListing} (h : functionHeader? l = some f)
    (s : Scope) {ls : List (List Char)} {fs : List FunctionListing}
    (hrest : GoesOnWith (readFunctionLine l).scope ls fs) :
    ∃ g, Stretch.Holds ⟨l, (stretches ls).1⟩ g ∧ GoesOnWith s (l :: ls) (g :: fs) := by
  obtain ⟨g, hg, hfunctions⟩ : ∃ g, Stretch.Holds ⟨l, (stretches ls).1⟩ g ∧
      functionsIn (foundFrom .outside (l :: ls)) = g :: fs := by
    have hread : readLine .outside l = readFunctionLine l := readOutside_of_functionHeader? h
    have hempty : f.bodyLines = [] := bodyLines_of_functionHeader? h
    have hheader : ∀ body, functionHeader? l = some { finished f body with bodyLines := [] } := by
      intro body
      rw [h, finished, ← hempty]
    have hstretch : ∀ k ∈ (stretches ls).1, functionHeader? k = none :=
      fun k => functionHeader?_of_mem_stretches
    rw [foundFrom_cons, hread, functionsIn_append]
    rcases readFunctionLine_of_functionHeader? h with ⟨hfound, hscope⟩ | ⟨hfound, hscope⟩
    · rw [GoesOnWith, hscope] at hrest
      refine ⟨f, ⟨hheader [], hstretch, ?_⟩, by rw [hfound, hrest, List.singleton_append]⟩
      rw [hempty]
      exact List.nil_sublist _
    · rw [GoesOnWith, hscope] at hrest
      obtain ⟨more, hmore, hrest⟩ := hrest
      refine ⟨finished f (more.reverse ++ []),
        ⟨hheader _, hstretch, ?_⟩, by rw [hfound, hrest, List.nil_append]⟩
      show (more.reverse ++ []).reverse.Sublist _
      rw [List.append_nil, List.reverse_reverse]
      exact hmore
  refine ⟨g, hg, ?_⟩
  rw [GoesOnWith, foundFrom_cons_of_opensBlock (opensBlock_of_functionHeader? h),
    functionsIn_append, functionsIn_readEnd, hfunctions, stretches_of_header h]
  cases s.function? with
  | none => rfl
  | some p => exact ⟨[], List.nil_sublist _, rfl⟩

/-- Any other line begins no function, and may be part of the one that is open. -/
theorem goesOnWith_line {l : List Char}
    (h : functionHeader? l = none) {s : Scope} {ls : List (List Char)}
    {fs : List FunctionListing} (hrest : GoesOnWith (readLine s l).scope ls fs) :
    GoesOnWith s (l :: ls) fs := by
  rw [GoesOnWith, foundFrom_cons, functionsIn_append, stretches_of_no_header h]
  cases hs : s.function? with
  | none =>
    obtain ⟨hfound, hscope⟩ := readLine_of_no_function h hs
    rw [GoesOnWith, hscope] at hrest
    rw [hfound, hrest, List.nil_append]
  | some p =>
    obtain ⟨block, body⟩ := p
    rcases readLine_of_function h hs with ⟨hfound, hscope⟩ | ⟨hfound, body', hscope, hbody⟩
    · rw [GoesOnWith, hscope] at hrest
      exact ⟨[], List.nil_sublist _, by rw [hfound, hrest]; rfl⟩
    · rw [GoesOnWith, hscope] at hrest
      obtain ⟨more, hmore, hrest⟩ := hrest
      rw [hfound, hrest, List.nil_append, List.map_cons]
      rcases hbody with rfl | rfl
      · exact ⟨more, hmore.cons _, rfl⟩
      · exact ⟨String.ofList l :: more, hmore.cons_cons _, by simp⟩

/-- **Every stretch holds one function**, whatever scope the lines are read from. -/
theorem holds_foundFrom (s : Scope) (ls : List (List Char)) :
    ∃ fs, List.Forall₂ Stretch.Holds (stretches ls).2 fs ∧ GoesOnWith s ls fs := by
  induction ls generalizing s with
  | nil =>
    refine ⟨[], .nil, ?_⟩
    rw [GoesOnWith, foundFrom, functionsIn_readEnd]
    cases s.function? with
    | none => rfl
    | some p => exact ⟨[], List.nil_sublist _, rfl⟩
  | cons l ls ih =>
    cases h : functionHeader? l with
    | some f =>
      obtain ⟨fs, hfs, hrest⟩ := ih (readFunctionLine l).scope
      obtain ⟨g, hg, hgoes⟩ := goesOnWith_header h s hrest
      exact ⟨g :: fs, by rw [stretches_of_header h]; exact .cons hg hfs, hgoes⟩
    | none =>
      obtain ⟨fs, hfs, hrest⟩ := ih (readLine s l).scope
      exact ⟨fs, by rwa [stretches_of_no_header h], goesOnWith_line h hrest⟩

/-- The bodies of functions are made of the lines of their stretches. -/
theorem sublist_bodyLines {ss : List Stretch} {fs : List FunctionListing}
    (h : List.Forall₂ Stretch.Holds ss fs) :
    (fs.flatMap (·.bodyLines)).Sublist ((ss.flatMap Stretch.lines).map String.ofList) := by
  induction h with
  | nil => exact List.Sublist.slnil
  | cons hs _ ih =>
    rw [List.flatMap_cons, List.flatMap_cons, List.map_append, Stretch.lines, List.map_cons]
    exact (hs.body.cons _).append ih

/-- **Each line belongs to at most one function.** The bodies, one after the other, are a
subsequence of the lines. The headers of functions cut the lines into stretches, of which
each holds one function, in the order of the text: its body consists of lines between its
header and the next one. -/
theorem functions_read (text : String) :
    ((read text).functions.flatMap (·.bodyLines)).Sublist ((lines text.toList).map String.ofList) ∧
    (stretches (lines text.toList)).1 ++ (stretches (lines text.toList)).2.flatMap Stretch.lines =
      lines text.toList ∧
    (∀ l ∈ (stretches (lines text.toList)).1, functionHeader? l = none) ∧
    List.Forall₂ Stretch.Holds (stretches (lines text.toList)).2 (read text).functions := by
  generalize hcut : stretches (lines text.toList) = cut
  have hlines : cut.1 ++ cut.2.flatMap Stretch.lines = lines text.toList := hcut ▸ lines_stretches _
  have hholds : List.Forall₂ Stretch.Holds cut.2 (read text).functions := by
    obtain ⟨fs, hfs, hread⟩ := holds_foundFrom .outside (lines text.toList)
    have hfunctions : (read text).functions = fs := by
      rw [read, declarations_eq]
      exact hread
    rw [hfunctions, ← hcut]
    exact hfs
  refine ⟨?_, hlines, hcut ▸ fun l => functionHeader?_of_mem_stretches, hholds⟩
  rw [← hlines, List.map_append]
  exact (sublist_bodyLines hholds).trans (List.sublist_append_right _ _)

end Listing

end PseudoMove
