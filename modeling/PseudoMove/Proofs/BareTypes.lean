import PseudoMove.Naming
import PseudoMove.Proofs.BracketedList
import PseudoMove.Proofs.UniqueReading

/-!
# Names without references and paths

A type is written as a name with a path in front of it, a reference in front of that, and type
arguments behind it, which are types themselves (`TypeTerm`).  All that is read from its text are
its name (`TypeTerm.baseName_text`) and the texts of its arguments (`TypeTerm.arguments_text`).  A
name for its values is made from the name of the type, and from the name of the first argument and
the name for that argument's values (`plainName_congr`).  References and paths have no part in any
of these, so a type and its bare form lead to the same name (`nameFor_bare`).

Bytes are the one case in which more of an argument is looked at than its name; but the name of `u8`
has the plural `bytes` anyway (`plainName_vector`).
-/

namespace PseudoMove

open Text PseudoMove.Bracket Listing TypeText Naming
open UniqueReading (Word)

/-! ## Types as terms -/

/-- A reference to a value: one to read it or one to change it. -/
inductive Reference where
  | shared
  | mutable
deriving DecidableEq, Repr

namespace TypeText

/-- What stands in front of the type that a reference points to. -/
def mark : Option Reference → List Char
  | none => []
  | some .shared => ['&']
  | some .mutable => ['&', 'm', 'u', 't', ' ']

/-- A type without its arguments: blanks in front of it, perhaps a reference, the path of its module
and its name. The words of a path are identifiers or addresses. -/
structure TypeHead where
  lead : List Char := []
  isBlank_lead : lead.all isBlank = true := by decide
  reference : Option Reference := none
  path : List Word := []
  name : Word

namespace TypeHead

/-- The name with the path in front of it. -/
def qualified (h : TypeHead) : List Char :=
  h.path.flatMap (fun w => w.text.toList ++ [':', ':']) ++ h.name.text.toList

/-- A type without its arguments as text. -/
def text (h : TypeHead) : List Char := h.lead ++ (mark h.reference ++ h.qualified)

/-- The same without reference and path. -/
def bare (h : TypeHead) : TypeHead := { h with reference := none, path := [] }

end TypeHead

/-- Type arguments as text: in angle brackets with commas between them, and nothing if there are
none. -/
def argumentList (items : List (List Char)) : List Char :=
  if items = [] then [] else '<' :: ([','].intercalate items ++ ['>'])

/-- A type with its type arguments. -/
inductive TypeTerm where
  | mk (head : TypeHead) (args : List TypeTerm)

namespace TypeTerm

mutual

/-- A type as text. -/
def text : TypeTerm → List Char
  | mk head args => head.text ++ argumentList (texts args)

/-- Some types as texts. -/
def texts : List TypeTerm → List (List Char)
  | [] => []
  | t :: ts => t.text :: texts ts

end

mutual

/-- A type without references and paths, at any depth. -/
def bare : TypeTerm → TypeTerm
  | mk head args => mk head.bare (bareAll args)

/-- Some types without references and paths. -/
def bareAll : List TypeTerm → List TypeTerm
  | [] => []
  | t :: ts => t.bare :: bareAll ts

end

/-- The name of the outermost type. -/
def name : TypeTerm → List Char
  | mk head _ => head.name.text.toList

/-- The type arguments. -/
def args : TypeTerm → List TypeTerm
  | mk _ args => args

end TypeTerm

/-! ## The text of a type without its arguments -/

/-- A character that may stand in a name with its path. -/
def isQualifiedPart (c : Char) : Bool := isNamePart c || c == ':'

theorem ne_of_isQualifiedPart {c d : Char} (hc : isQualifiedPart c = true)
    (hd : isQualifiedPart d = false) : c ≠ d := by
  rintro rfl
  exact absurd (hc.symm.trans hd) (by decide)

theorem isBlank_of_isQualifiedPart {c : Char} (h : isQualifiedPart c = true) :
    isBlank c = false := by
  rcases Bool.or_eq_true_iff.1 h with h | h
  · exact isBlank_of_isNamePart h
  · rw [beq_iff_eq.1 h]
    decide

/-- Colons are looked for further on first. -/
theorem afterLastColons?_cons {s r : List Char} (h : afterLastColons? s = some r) (c : Char) :
    afterLastColons? (c :: s) = some r := by
  unfold afterLastColons?
  simp only [h]

theorem afterLastColons?_cons_of_none {s : List Char} {c : Char} (h : afterLastColons? s = none)
    (hc : c = ':' → s.head? ≠ some ':') : afterLastColons? (c :: s) = none := by
  unfold afterLastColons?
  simp only [h]
  split
  · next he => exact absurd he (by simp)
  · next => exact absurd rfl (hc rfl)
  · rfl

theorem afterLastColons?_of_notMem {s : List Char} (hs : ':' ∉ s) : afterLastColons? s = none := by
  induction s with
  | nil => rfl
  | cons c s ih =>
    rw [List.mem_cons, not_or] at hs
    exact afterLastColons?_cons_of_none (ih hs.2) fun hc => absurd hc.symm hs.1

/-- What follows the last colons of a path is the name behind it. -/
theorem afterLastColons?_append (path : List Char) {name : List Char} (hname : ':' ∉ name) :
    afterLastColons? (path ++ ':' :: ':' :: name) = some name := by
  induction path with
  | nil =>
    have hone : afterLastColons? (':' :: name) = none :=
      afterLastColons?_cons_of_none (afterLastColons?_of_notMem hname) fun _ hhead =>
        hname (List.mem_of_mem_head? hhead)
    rw [List.nil_append]
    unfold afterLastColons?
    simp only [hone]
  | cons c path ih => exact afterLastColons?_cons ih c

namespace TypeHead

variable (h : TypeHead)

theorem isQualifiedPart_of_mem {c : Char} (hc : c ∈ h.qualified) : isQualifiedPart c = true := by
  have hword : ∀ (w : Word) (c : Char), c ∈ w.text.toList → isQualifiedPart c = true :=
    fun w c hc => by
    rw [isQualifiedPart, w.isNamePart_of_mem hc, Bool.true_or]
  rcases List.mem_append.1 hc with hc | hc
  · obtain ⟨w, -, hc⟩ := List.mem_flatMap.1 hc
    rcases List.mem_append.1 hc with hc | hc
    · exact hword w c hc
    · have hcolon : c = ':' := by simpa using hc
      rw [hcolon]
      decide
  · exact hword h.name c hc

theorem isTrimmed_qualified : IsTrimmed h.qualified := by
  refine ⟨fun hnil => h.name.nonempty ?_, trim_of_forall fun c hc =>
    isBlank_of_isQualifiedPart (h.isQualifiedPart_of_mem hc)⟩
  exact String.toList_eq_nil_iff.1 (List.append_eq_nil_iff.1 hnil).2

/-- A name with its path does not begin like a reference. -/
theorem exists_cons_qualified : ∃ c s, h.qualified = c :: s ∧ c ≠ '&' := by
  obtain ⟨c, s, hcs⟩ := List.exists_cons_of_ne_nil h.isTrimmed_qualified.1
  have hc : c ∈ h.qualified := hcs ▸ List.mem_cons_self
  exact ⟨c, s, hcs, ne_of_isQualifiedPart (h.isQualifiedPart_of_mem hc) rfl⟩

/-- The path is left out. -/
theorem lastSegment_qualified : lastSegment h.qualified = h.name.text.toList := by
  have hname : ':' ∉ h.name.text.toList :=
    fun hc => ne_of_isNamePart (h.name.isNamePart_of_mem hc) rfl rfl
  rw [lastSegment, qualified]
  rcases List.eq_nil_or_concat h.path with hpath | ⟨path, w, hpath⟩
  · rw [hpath, List.flatMap_nil, List.nil_append, afterLastColons?_of_notMem hname,
      Option.getD_none]
  · have hshape : h.path.flatMap (fun w => w.text.toList ++ [':', ':']) ++ h.name.text.toList =
        path.flatMap (fun w => w.text.toList ++ [':', ':']) ++ w.text.toList ++ ':' :: ':' ::
          h.name.text.toList := by
      simp [hpath]
    rw [hshape, afterLastColons?_append _ hname, Option.getD_some]

end TypeHead

/-! ## What is read from a type with arguments -/

/-- A text behind the name of a type: nothing, or angle brackets around something. -/
def IsTail (tail : List Char) : Prop := tail = [] ∨ ∃ s, tail = '<' :: (s ++ ['>'])

theorem isTail_argumentList (items : List (List Char)) : IsTail (argumentList items) := by
  unfold argumentList
  split
  · exact .inl rfl
  · exact .inr ⟨_, rfl⟩

section

variable (h : TypeHead) {tail : List Char} (htail : IsTail tail)
include htail

/-- The name with its path ends before the angle bracket. -/
theorem takeWhile_qualified_append : (h.qualified ++ tail).takeWhile (· ≠ '<') = h.qualified ∧
    (h.qualified ++ tail).dropWhile (· ≠ '<') = tail := by
  refine takeWhile_append (fun c hc => decide_eq_true ?_) ?_
  · exact ne_of_isQualifiedPart (h.isQualifiedPart_of_mem hc) rfl
  · rcases htail with rfl | ⟨s, rfl⟩
    · exact fun c hc => absurd hc (by simp)
    · exact stops_cons (by decide)

theorem isTrimmed_qualified_append : IsTrimmed (h.qualified ++ tail) := by
  rcases htail with rfl | ⟨s, rfl⟩
  · rw [List.append_nil]
    exact h.isTrimmed_qualified
  · have hclose : IsTrimmed ['>'] := by decide
    have := h.isTrimmed_qualified.append hclose ('<' :: s)
    rwa [List.append_assoc] at this

/-- No reference is read where none is written, even if the type is called `mut`: a blank
would have to follow it. -/
theorem afterPrefix?_mut : afterPrefix? ['m', 'u', 't', ' '] (h.qualified ++ tail) = none := by
  cases hr : afterPrefix? ['m', 'u', 't', ' '] (h.qualified ++ tail) with
  | none => rfl
  | some r =>
    have hshape := afterPrefix?_eq_some_iff.1 hr
    have htake := (takeWhile_qualified_append h htail).1
    rw [hshape] at htake
    have hspace : ' ' ∈ h.qualified := by
      rw [← htake]
      simp
    exact absurd (h.isQualifiedPart_of_mem hspace) (by decide)

theorem trim_text_append : trim (h.text ++ tail) = mark h.reference ++ (h.qualified ++ tail) := by
  have hcore := isTrimmed_qualified_append h htail
  rw [TypeHead.text, List.append_assoc, List.append_assoc, trim_blanks h.isBlank_lead]
  cases h.reference with
  | none => exact hcore.2
  | some r =>
    have hmark : IsTrimmed ['&'] := by decide
    cases r with
    | shared => exact (hmark.append hcore []).2
    | mutable => exact (hmark.append hcore ['m', 'u', 't', ' ']).2

/-- **The reference is taken off.** -/
theorem referent_text : referent (h.text ++ tail) = h.qualified ++ tail := by
  have hcore := isTrimmed_qualified_append h htail
  rw [referent, trim_text_append h htail]
  cases h.reference with
  | none =>
    obtain ⟨c, s, hcs, hand⟩ := h.exists_cons_qualified
    have hnone : afterPrefix? "&mut ".toList (c :: (s ++ tail)) = none := if_neg hand.symm
    rw [mark, List.nil_append, hcs, List.cons_append, hnone]
    dsimp only
    split
    · next r he => exact absurd (List.cons.inj he).1 hand
    · rfl
  | some r =>
    cases r with
    | shared =>
      have hnone : afterPrefix? "&mut ".toList ('&' :: (h.qualified ++ tail)) = none :=
        afterPrefix?_mut h htail
      rw [mark, List.singleton_append, hnone]
      exact hcore.2
    | mutable =>
      have hsome : afterPrefix? "&mut ".toList
          (['&', 'm', 'u', 't', ' '] ++ (h.qualified ++ tail)) = some (h.qualified ++ tail) :=
        afterPrefix?_eq_some_iff.2 rfl
      rw [mark, hsome]
      exact hcore.2

theorem baseName_text : baseName (h.text ++ tail) = h.name.text.toList := by
  rw [baseName, referent_text h htail, (takeWhile_qualified_append h htail).1,
    h.isTrimmed_qualified.2, h.lastSegment_qualified]
  exact trim_of_forall fun c hc => isBlank_of_isNamePart (h.name.isNamePart_of_mem hc)

end

/-- **The arguments are read one by one.** -/
theorem arguments_text (h : TypeHead) {items : List (List Char)}
    (hitems : ∀ x ∈ items, IsItem x ∧ trim x ≠ []) :
    arguments (h.text ++ argumentList items) = items.map trim := by
  have htail := isTail_argumentList items
  rw [arguments, referent_text h htail, (takeWhile_qualified_append h htail).2]
  cases items with
  | nil => rfl
  | cons x items =>
    have hlist : IsBalanced ([','].intercalate (x :: items)) :=
      (commaList_intercalate rfl (x :: items)).isBalanced fun y hy => (hitems y hy).1
    rw [argumentList, if_neg (List.cons_ne_nil x items)]
    dsimp only
    rw [enclosed?_of_balanced hlist rfl rfl []]
    exact splitOutside_intercalate_comma hitems

/-! ## Types with their arguments -/

theorem isItem_head (h : TypeHead) : IsItem h.text := by
  have hlead : IsItem h.lead := depthThrough?_blanks h.isBlank_lead
  have hmark : IsItem (mark h.reference) := by
    rcases h.reference with _ | r
    · rfl
    · cases r <;> rfl
  have hqualified : IsItem h.qualified := by
    refine depthThrough?_of_plain fun c hc => ?_
    have hne : ∀ d : Char, isQualifiedPart d = false → c ≠ d :=
      fun d => ne_of_isQualifiedPart (h.isQualifiedPart_of_mem hc)
    simp (disch := decide) [isOpening, isClosing, hne]
  exact hlead.append (hmark.append hqualified)

namespace TypeTerm

mutual

theorem isItem_text : ∀ t : TypeTerm, IsItem t.text
  | mk head args => by
    rw [text]
    refine (isItem_head head).append ?_
    unfold argumentList
    split
    · rfl
    · exact isItem_angled ((commaList_intercalate rfl (texts args)).isBalanced (isItem_texts args))

theorem isItem_texts : ∀ ts : List TypeTerm, ∀ x ∈ texts ts, IsItem x
  | [] => fun _ hx => absurd hx List.not_mem_nil
  | t :: ts => List.forall_mem_cons.2 ⟨isItem_text t, isItem_texts ts⟩

end

theorem texts_eq_map (ts : List TypeTerm) : texts ts = ts.map text := by
  induction ts with
  | nil => rfl
  | cons t ts ih => rw [texts, ih, List.map_cons]

/-- A type is not blank. -/
theorem trim_text_ne_nil (t : TypeTerm) : trim t.text ≠ [] := by
  obtain ⟨head, args⟩ := t
  obtain ⟨c, s, hc⟩ :=
    List.exists_cons_of_ne_nil fun h => head.name.nonempty (String.toList_eq_nil_iff.1 h)
  have hname : c ∈ head.name.text.toList := hc ▸ List.mem_cons_self
  have htext : c ∈ (mk head args).text := by simp [text, TypeHead.text, TypeHead.qualified, hname]
  intro hnil
  have hblank := trim_eq_nil_iff.1 hnil c htext
  rw [isBlank_of_isNamePart (head.name.isNamePart_of_mem hname)] at hblank
  exact absurd hblank Bool.false_ne_true

/-- **Of the outermost type the name is read**, without reference and path. -/
theorem baseName_text (t : TypeTerm) : baseName t.text = t.name := by
  obtain ⟨head, args⟩ := t
  exact TypeText.baseName_text head (isTail_argumentList _)

/-- **The arguments of a type are read as they are written**, but for the blanks in front. -/
theorem arguments_text (t : TypeTerm) : arguments t.text = t.args.map fun a => trim a.text := by
  obtain ⟨head, args⟩ := t
  rw [text, texts_eq_map, TypeText.arguments_text, List.map_map]
  · rfl
  · intro x hx
    obtain ⟨a, -, rfl⟩ := List.mem_map.1 hx
    exact ⟨isItem_text a, trim_text_ne_nil a⟩

end TypeTerm

end TypeText

/-! ## Names -/

namespace Naming

section

variable {ty : List Char}

theorem plainName_currency (h : holdsCurrency (String.ofList (baseName ty)) = true) :
    plainName ty = coinName (baseName ty) (arguments ty) := by
  rw [plainName]
  exact if_pos h

theorem plainName_other (h : ¬ holdsCurrency (String.ofList (baseName ty)) = true)
    (hv : ¬ String.ofList (baseName ty) = "vector") :
    plainName ty =
      (wellKnown.lookup (String.ofList (baseName ty))).getD (ordinaryName (baseName ty)) := by
  rw [plainName, if_neg h, if_neg hv]
  split
  · next hl => rw [hl, Option.getD_some]
  · next hl => rw [hl, Option.getD_none]

/-- The name of a vector is the plural of its elements' name. Bytes are looked at by themselves,
but are no exception. -/
theorem plainName_vector (hv : String.ofList (baseName ty) = "vector") :
    plainName ty = ((arguments ty).head?.map fun elem => plural (plainName elem)).getD "items" := by
  have h : ¬ holdsCurrency (String.ofList (baseName ty)) = true := by
    rw [hv]
    decide
  rw [plainName, if_neg h, if_pos hv]
  split
  · next he => rw [he, List.head?_nil, Option.map_none, Option.getD_none]
  · next elem rest he =>
    rw [he, List.head?_cons, Option.map_some, Option.getD_some]
    split
    · next hu =>
      have hbase : baseName elem = ['u', '8'] := by
        rw [baseName, ← String.toList_ofList (l := referent elem), hu]
        decide
      rw [plainName_other (by rw [hbase]; decide) (by rw [hbase]; decide), hbase]
      decide
    · rfl

end

theorem coinName_congr (base : List Char) {args args' : List (List Char)}
    (h : args.head?.map baseName = args'.head?.map baseName) :
    coinName base args = coinName base args' := by
  cases args <;> cases args' <;> simp_all [coinName]

/-- **What the name of a value depends on**: the name of its type, and the name of the first type
argument with the name for the values of this one. -/
theorem plainName_congr {s t : List Char} (hbase : baseName s = baseName t)
    (hfirst : (arguments s).head?.map baseName = (arguments t).head?.map baseName)
    (hplain : (arguments s).head?.map plainName = (arguments t).head?.map plainName) :
    plainName s = plainName t := by
  by_cases h : holdsCurrency (String.ofList (baseName s)) = true
  · have ht : holdsCurrency (String.ofList (baseName t)) = true := by rw [← hbase, h]
    rw [plainName_currency h, plainName_currency ht, hbase]
    exact coinName_congr _ hfirst
  · have ht : ¬ holdsCurrency (String.ofList (baseName t)) = true := by rwa [← hbase]
    by_cases hv : String.ofList (baseName s) = "vector"
    · have hvt : String.ofList (baseName t) = "vector" := by rw [← hbase, hv]
      have helem := congrArg (fun n : Option String => (n.map plural).getD "items") hplain
      simp only [Option.map_map] at helem
      rw [plainName_vector hv, plainName_vector hvt]
      exact helem
    · have hvt : ¬ String.ofList (baseName t) = "vector" := by rwa [← hbase]
      rw [plainName_other h hv, plainName_other ht hvt, hbase]

theorem nameFor_congr {s t : List Char} (hbase : baseName s = baseName t)
    (hplain : plainName s = plainName t) (ctx : NameContext) : nameFor s ctx = nameFor t ctx := by
  rw [nameFor, nameFor, impliedName, impliedName, hbase, hplain]

/-- Blanks around a type count for nothing. -/
theorem referent_trim (s : List Char) : referent (trim s) = referent s := by
  rw [referent, referent, trim_trim]

theorem baseName_trim (s : List Char) : baseName (trim s) = baseName s := by
  rw [baseName, baseName, referent_trim]

theorem plainName_trim (s : List Char) : plainName (trim s) = plainName s := by
  have harguments : arguments (trim s) = arguments s := by rw [arguments, arguments, referent_trim]
  exact plainName_congr (baseName_trim s) (by rw [harguments]) (by rw [harguments])

theorem baseName_bare (t : TypeTerm) : baseName t.bare.text = baseName t.text := by
  rw [t.baseName_text, t.bare.baseName_text]
  cases t
  rfl

/-- **References and paths have no part in the name for a type's values.** -/
theorem plainName_bare : ∀ t : TypeTerm, plainName t.bare.text = plainName t.text
  | .mk head [] => by
    refine plainName_congr (baseName_bare _) ?_ ?_ <;>
      rw [TypeTerm.arguments_text, TypeTerm.arguments_text] <;> rfl
  | .mk head (a :: as) => by
    refine plainName_congr (baseName_bare _) ?_ ?_ <;>
      rw [TypeTerm.arguments_text, TypeTerm.arguments_text]
    · show some (baseName (trim a.bare.text)) = some (baseName (trim a.text))
      rw [baseName_trim, baseName_trim, baseName_bare]
    · show some (plainName (trim a.bare.text)) = some (plainName (trim a.text))
      rw [plainName_trim, plainName_trim, plainName_bare a]

/-- **Names do not tell references and paths.** In every context, a type leads to the name that it
leads to without its references and paths, those of its arguments at any depth included. -/
theorem nameFor_bare (t : TypeTerm) (ctx : NameContext) :
    nameFor t.text ctx = nameFor t.bare.text ctx :=
  (nameFor_congr (baseName_bare t) (plainName_bare t) ctx).symm

example :
    let sui : TypeTerm :=
      .mk { path := [⟨"0x2", by decide, by decide⟩, ⟨"sui", by decide, by decide⟩],
            name := ⟨"SUI", by decide, by decide⟩ } []
    let coin : TypeTerm :=
      .mk { reference := some .shared, path := [⟨"coin", by decide, by decide⟩],
            name := ⟨"Coin", by decide, by decide⟩ } [sui]
    coin.text = "&coin::Coin<0x2::sui::SUI>".toList ∧ coin.bare.text = "Coin<SUI>".toList ∧
      nameFor coin.text {} = "sui_coin" := by decide +kernel

end Naming

end PseudoMove
