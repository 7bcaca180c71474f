import PseudoMove.Machine
import PseudoMove.Proofs.Scanning

/-!
# Fragments are read in one way

Words put together with the operators, negation and casts make expressions, and the machine pushes a
fragment for each.  Two expressions never have the same fragment (`fragment_eq_iff`), so nothing is
lost when the stack holds texts in their place.

* `Expr`, `Expr.chars` — the expressions, and how each is written;
* `Builds` — code that puts an expression together, whatever instructions its words come from.
  `Builds.stack` says that it pushes what `chars` writes: an operation has a pair of parentheses
  of its own (`isEnclosed_group`), so that a negation adds none, and only a negation inside a
  negation gets another pair;
* `Reads` — with what follows it, the text of an expression is the text of this expression alone.

The text is read from the left.  After a parenthesis stands an operand and then a blank.  The pair
that a negation adds to a negation is told from that of an operation by what stands behind the
operand: the closing parenthesis and not a blank.  So the induction carries both facts.
-/

namespace PseudoMove.UniqueReading

open Text Listing Fragment

/-! ## Expressions -/

/-- A word: ASCII letters, digits and underscores, and at least one of them. -/
structure Word where
  text : String
  nonempty : text ≠ ""
  isWord : text.toList.all isNamePart = true

theorem Word.isNamePart_of_mem (w : Word) {c : Char} (h : c ∈ w.text.toList) :
    isNamePart c = true :=
  List.all_eq_true.1 w.isWord c h

/-- An expression over words. -/
inductive Expr where
  | leaf (w : Word)
  | binary (op : Operator) (a b : Expr)
  | not (a : Expr)
  | cast (ty : IntWidth) (a : Expr)

/-- A text in parentheses. -/
def group (s : List Char) : List Char := '(' :: (s ++ [')'])

namespace Expr

/-- Whether an expression is a negation. -/
def isNot : Expr → Bool
  | not _ => true
  | _ => false

/-- How an expression is written. -/
def chars : Expr → List Char
  | leaf w => w.text.toList
  | binary op a b => group (a.chars ++ ' ' :: (op.symbol.toList ++ ' ' :: b.chars))
  | not a => '!' :: if a.isNot then group a.chars else a.chars
  | cast ty a => group (a.chars ++ ' ' :: 'a' :: 's' :: ' ' :: ty.name.toList)

theorem chars_not_of_isNot {a : Expr} (h : a.isNot = true) :
    (not a).chars = '!' :: group a.chars := by
  rw [chars, if_pos h]

theorem chars_not_of_not {a : Expr} (h : a.isNot = false) : (not a).chars = '!' :: a.chars := by
  rw [chars, h, if_neg Bool.false_ne_true]

end Expr

/-! ## Parentheses -/

/-- Every parenthesis of the text has its partner, so that within others it leaves the depth as it
was. -/
def Balanced (s : List Char) : Prop := ∀ d r, closesAtEnd (d + 1) (s ++ r) = closesAtEnd (d + 1) r

theorem Balanced.cons {c : Char} {s : List Char} (hc : c ≠ '(' ∧ c ≠ ')') (h : Balanced s) :
    Balanced (c :: s) := by
  intro d r
  rw [List.cons_append, closesAtEnd, if_neg hc.1, if_neg hc.2]
  exact h d r

theorem balanced_of_forall {s : List Char} (h : ∀ c ∈ s, c ≠ '(' ∧ c ≠ ')') : Balanced s := by
  induction s with
  | nil => exact fun _ _ => rfl
  | cons c s ih =>
    exact .cons (h c List.mem_cons_self) (ih fun e he => h e (List.mem_cons_of_mem c he))

theorem Balanced.append {s s' : List Char} (h : Balanced s) (h' : Balanced s') :
    Balanced (s ++ s') := by
  intro d r
  rw [List.append_assoc, h, h']

theorem Balanced.group {s : List Char} (h : Balanced s) : Balanced (group s) := by
  intro d r
  have hopen : closesAtEnd (d + 1) ('(' :: (s ++ ')' :: r)) = closesAtEnd (d + 2) (s ++ ')' :: r) :=
    rfl
  have hclose : closesAtEnd (d + 2) (')' :: r) = closesAtEnd (d + 1) r := rfl
  rw [UniqueReading.group, List.cons_append, List.append_assoc, List.singleton_append,
    hopen, h, hclose]

theorem balanced_of_isNamePart {s : List Char} (h : ∀ c ∈ s, isNamePart c = true) : Balanced s :=
  balanced_of_forall fun c hc => ⟨ne_of_isNamePart (h c hc) rfl, ne_of_isNamePart (h c hc) rfl⟩

theorem mem_symbol {op : Operator} {c : Char} (h : c ∈ op.symbol.toList) :
    c ≠ ' ' ∧ c ≠ '(' ∧ c ≠ ')' := by
  have hall : op.symbol.toList.all (fun c => c ≠ ' ' ∧ c ≠ '(' ∧ c ≠ ')') = true := by
    cases op <;> decide
  exact of_decide_eq_true (List.all_eq_true.1 hall c h)

theorem isNamePart_of_mem_name {ty : IntWidth} {c : Char} (h : c ∈ ty.name.toList) :
    isNamePart c = true := by
  have hall : ty.name.toList.all isNamePart = true := by cases ty <;> decide
  exact List.all_eq_true.1 hall c h

namespace Expr

theorem balanced_binary (op : Operator) {a b : Expr} (ha : Balanced a.chars)
    (hb : Balanced b.chars) :
    Balanced (a.chars ++ ' ' :: (op.symbol.toList ++ ' ' :: b.chars)) := by
  have hsymbol : Balanced op.symbol.toList := balanced_of_forall fun c hc => (mem_symbol hc).2
  exact ha.append (.cons (by decide) (hsymbol.append (.cons (by decide) hb)))

theorem balanced_cast (ty : IntWidth) {a : Expr} (ha : Balanced a.chars) :
    Balanced (a.chars ++ ' ' :: 'a' :: 's' :: ' ' :: ty.name.toList) := by
  have hname : Balanced ty.name.toList :=
    balanced_of_isNamePart fun c hc => isNamePart_of_mem_name hc
  exact ha.append (.cons (by decide)
    (.cons (by decide) (.cons (by decide) (.cons (by decide) hname))))

/-- **An expression is balanced.** -/
theorem balanced (e : Expr) : Balanced e.chars := by
  induction e with
  | leaf w => exact balanced_of_isNamePart fun c hc => w.isNamePart_of_mem hc
  | binary op a b iha ihb => exact (balanced_binary op iha ihb).group
  | cast ty a ih => exact (balanced_cast ty ih).group
  | not a ih =>
    cases h : a.isNot with
    | true =>
      rw [chars_not_of_isNot h]
      exact .cons (by decide) ih.group
    | false =>
      rw [chars_not_of_not h]
      exact .cons (by decide) ih

end Expr

/-- The parentheses around a balanced text enclose all of it. -/
theorem isEnclosed_group {s : List Char} (h : Balanced s) :
    isEnclosed (String.ofList (group s)) = true := by
  have hopen : closesAtEnd 0 ('(' :: (s ++ [')'])) = closesAtEnd 1 (s ++ [')']) := rfl
  rw [isEnclosed, String.toList_ofList, group, List.head?_cons, hopen, h]
  rfl

/-! ## Negations -/

theorem isSimple_word (w : Word) : isSimple w.text = true := by
  refine List.all_eq_true.2 fun c hc => ?_
  have hpart := w.isNamePart_of_mem hc
  have hascii : c.toNat < 128 := by have := toNat_of_isNamePart hpart; omega
  simp only [isNamePart, Char.isAlphanum, Bool.or_eq_true, beq_iff_eq] at hpart
  simp only [isAlphanumeric, isAlphabetic, isNumeric, if_pos hascii, Bool.or_eq_true, beq_iff_eq]
  exact .inl hpart

theorem isSimple_cons {c : Char} (hc : (isAlphanumeric c || c == '_' || c == '.') = false)
    (s : List Char) :
    isSimple (String.ofList (c :: s)) = false := by
  rw [isSimple, String.toList_ofList, List.all_cons, hc, Bool.false_and]

/-- A negation of what has parentheses of its own. -/
theorem negated_group {s : List Char} (h : Balanced s) :
    negated (String.ofList (group s)) = String.ofList ('!' :: group s) := by
  have hsimple : isSimple (String.ofList (group s)) = false := isSimple_cons (by decide) _
  rw [negated, hsimple, if_neg Bool.false_ne_true, inParentheses, if_pos (isEnclosed_group h),
    ← String.toList_inj]
  simp

/-- **What the machine writes for a negation**: parentheses are added to a negation, and to nothing
else. -/
theorem negated_chars (a : Expr) : negated (String.ofList a.chars) = String.ofList a.not.chars := by
  cases a with
  | leaf w =>
    have hw : negated w.text = "!" ++ w.text := by rw [negated, if_pos (isSimple_word w)]
    rw [Expr.chars, String.ofList_toList, hw, Expr.chars_not_of_not rfl, Expr.chars,
      ← String.toList_inj]
    simp
  | binary op a b =>
    rw [Expr.chars_not_of_not rfl]
    exact negated_group (Expr.balanced_binary op a.balanced b.balanced)
  | cast ty a =>
    rw [Expr.chars_not_of_not rfl]
    exact negated_group (Expr.balanced_cast ty a.balanced)
  | not a =>
    have hmark : ∃ s, a.not.chars = '!' :: s := ⟨_, by rw [Expr.chars]⟩
    obtain ⟨s, hs⟩ := hmark
    have hsimple : isSimple (String.ofList ('!' :: s)) = false := isSimple_cons (by decide) s
    have henclosed : isEnclosed (String.ofList ('!' :: s)) = false := by
      rw [isEnclosed, String.toList_ofList]
      rfl
    rw [Expr.chars_not_of_isNot (a := a.not) rfl, hs, negated, hsimple, if_neg Bool.false_ne_true,
      inParentheses, henclosed, if_neg Bool.false_ne_true, group, ← String.toList_inj]
    simp

/-! ## What the machine pushes -/

/-- From the machine `m`, the instructions put an expression together: those of its operands,
and then the operation.  A word comes from any instruction that pushes just this word: a
literal, a constant, a local. -/
inductive Builds : Machine → List Instruction → Expr → Prop
  | leaf {m : Machine} {r : Instruction} {w : Word} (hpops : (m.effect r).pops = 0)
      (hpushes : (m.effect r).pushes = [w.text]) : Builds m [r] (.leaf w)
  | binary {m : Machine} {c c' : List Instruction} {r : Instruction} {op : Operator}
    {a b : Expr} (ha : Builds m c a) (hb : Builds (c.foldl Machine.step m) c' b)
    (hop : r.opcode = .binary op) : Builds m (c ++ c' ++ [r]) (.binary op a b)
  | not {m : Machine} {c : List Instruction} {r : Instruction} {a : Expr} (ha : Builds m c a)
    (hop : r.opcode = .not) : Builds m (c ++ [r]) (.not a)
  | cast {m : Machine} {c : List Instruction} {r : Instruction} {ty : IntWidth} {a : Expr}
    (ha : Builds m c a) (hop : r.opcode = .cast ty) : Builds m (c ++ [r]) (.cast ty a)

/-- **The code of an expression pushes its text.** -/
theorem Builds.stack {m : Machine} {c : List Instruction} {e : Expr} (h : Builds m c e) :
    (c.foldl Machine.step m).stack = String.ofList e.chars :: m.stack := by
  induction h with
  | leaf hpops hpushes =>
    rw [List.foldl_cons, List.foldl_nil, Machine.step, Machine.apply, hpops, hpushes, Expr.chars,
      String.ofList_toList]
    rfl
  | @binary m c c' r op a b ha hb hop iha ihb =>
    have htext : "(" ++ String.ofList a.chars ++ " " ++ op.symbol ++ " " ++ String.ofList b.chars ++
        ")" = String.ofList (Expr.binary op a b).chars := by
      rw [← String.toList_inj]
      simp [Expr.chars, group]
    rw [iha] at ihb
    rw [List.foldl_append, List.foldl_append, List.foldl_cons, List.foldl_nil, Machine.step,
      Machine.effect, hop]
    simp only [Machine.apply, Machine.operand, ihb]
    rw [← htext]
    rfl
  | @not m c r a ha hop ih =>
    rw [List.foldl_append, List.foldl_cons, List.foldl_nil, Machine.step, Machine.effect, hop]
    simp only [Machine.apply, Machine.operand, ih]
    rw [← negated_chars]
    rfl
  | @cast m c r ty a ha hop ih =>
    have htext : "(" ++ String.ofList a.chars ++ " as " ++ ty.name ++ ")" =
        String.ofList (Expr.cast ty a).chars := by
      rw [← String.toList_inj]
      simp [Expr.chars, group]
    rw [List.foldl_append, List.foldl_cons, List.foldl_nil, Machine.step, Machine.effect, hop]
    simp only [Machine.apply, Machine.operand, ih]
    rw [← htext]
    rfl

/-- The code of an expression whose words are literals. -/
def Expr.code : Expr → List Instruction
  | leaf w => [⟨0, .ldInt .u64, none, some w.text⟩]
  | binary op a b => a.code ++ b.code ++ [⟨0, .binary op, none, none⟩]
  | not a => a.code ++ [⟨0, .not, none, none⟩]
  | cast ty a => a.code ++ [⟨0, .cast ty, none, none⟩]

/-- Every expression has code, from every machine. -/
theorem builds_code (m : Machine) (e : Expr) : Builds m e.code e := by
  induction e generalizing m with
  | leaf w =>
    have htrim : trimmed w.text = w.text := by
      rw [trimmed, trim_of_forall fun c hc => isBlank_of_isNamePart (w.isNamePart_of_mem hc),
        String.ofList_toList]
    have hargument : Instruction.argument ⟨0, .ldInt .u64, none, some w.text⟩ = some w.text := by
      simp [Instruction.argument, htrim, w.nonempty]
    refine .leaf rfl ?_
    show [Machine.orPlaceholder (Instruction.argument _)] = _
    rw [hargument]
    rfl
  | binary op a b iha ihb => exact .binary (iha m) (ihb _) rfl
  | not a ih => exact .not (ih m) rfl
  | cast ty a ih => exact .cast (ih m) rfl

/-! ## Reading a text -/

/-- A run of a class is told from what follows it. -/
theorem append_inj_of_forall {p : Char → Bool} {w w' r r' : List Char} (hw : ∀ c ∈ w, p c = true)
    (hw' : ∀ c ∈ w', p c = true) (hr : Stops p r) (hr' : Stops p r') (h : w ++ r = w' ++ r') :
    w = w' ∧ r = r' := by
  obtain ⟨htake, hdrop⟩ := takeWhile_append hw hr
  obtain ⟨htake', hdrop'⟩ := takeWhile_append hw' hr'
  rw [h] at htake hdrop
  exact ⟨htake.symm.trans htake', hdrop.symm.trans hdrop'⟩

/-- What stands before a blank is told from what follows. -/
theorem append_blank_inj {w w' r r' : List Char} (hw : ∀ c ∈ w, c ≠ ' ') (hw' : ∀ c ∈ w', c ≠ ' ')
    (h : w ++ ' ' :: r = w' ++ ' ' :: r') : w = w' ∧ r = r' := by
  obtain ⟨hword, hrest⟩ :=
    append_inj_of_forall (p := fun c => decide (c ≠ ' ')) (fun c hc => decide_eq_true (hw c hc))
      (fun c hc => decide_eq_true (hw' c hc)) (stops_cons (by decide)) (stops_cons (by decide)) h
  exact ⟨hword, (List.cons.inj hrest).2⟩

/-- An operator is known by its symbol. -/
theorem eq_of_symbol {op op' : Operator} (h : op.symbol.toList = op'.symbol.toList) : op = op' := by
  have hfind (o : Operator) : Operator.all.find? (fun p => p.symbol = o.symbol) = some o := by
    cases o <;> decide
  have hsame := hfind op
  rw [String.toList_inj.1 h, hfind op'] at hsame
  exact (Option.some.inj hsame).symm

/-- An integer type is known by its name. -/
theorem eq_of_name {ty ty' : IntWidth} (h : ty.name.toList = ty'.name.toList) : ty = ty' := by
  have hfind (t : IntWidth) : IntWidth.all.find? (fun u => u.name = t.name) = some t := by
    cases t <;> decide
  have hsame := hfind ty
  rw [String.toList_inj.1 h, hfind ty'] at hsame
  exact (Option.some.inj hsame).symm

/-- No operator is spelled like a cast. -/
theorem symbol_ne_as (op : Operator) {r r' : List Char} :
    op.symbol.toList ++ ' ' :: r ≠ 'a' :: 's' :: ' ' :: r' := by
  intro h
  have has : ∀ c ∈ ['a', 's'], c ≠ ' ' := by simp
  have hsymbol : op.symbol.toList = ['a', 's'] :=
    (append_blank_inj (fun c hc => (mem_symbol hc).1) has h).1
  revert hsymbol
  cases op <;> decide

theorem Word.eq_of_toList {w w' : Word} (h : w.text.toList = w'.text.toList) : w = w' := by
  cases w
  cases w'
  obtain rfl := String.toList_inj.1 h
  rfl

/-- A word begins with none of the marks with which other expressions begin. -/
theorem Word.append_ne (w : Word) {c : Char} (hc : isNamePart c = false) {r s : List Char} :
    w.text.toList ++ r ≠ c :: s := by
  have hne : w.text.toList ≠ [] := fun h => w.nonempty (String.toList_eq_nil_iff.1 h)
  obtain ⟨d, u, hw⟩ := List.exists_cons_of_ne_nil hne
  have hd : isNamePart d = true := w.isNamePart_of_mem (by rw [hw]; exact List.mem_cons_self)
  rw [hw]
  intro h
  exact ne_of_isNamePart hd hc (List.cons.inj h).1

theorem group_append (s r : List Char) : group s ++ r = '(' :: (s ++ ')' :: r) := by
  rw [group, List.cons_append, List.append_assoc, List.singleton_append]

namespace Expr

theorem chars_binary_append (op : Operator) (a b : Expr) (r : List Char) :
    (binary op a b).chars ++ r =
      '(' :: (a.chars ++ ' ' :: (op.symbol.toList ++ ' ' :: (b.chars ++ ')' :: r))) := by
  simp [chars, group]

theorem chars_cast_append (ty : IntWidth) (a : Expr) (r : List Char) :
    (cast ty a).chars ++ r =
      '(' :: (a.chars ++ ' ' :: 'a' :: 's' :: ' ' :: (ty.name.toList ++ ')' :: r)) := by
  simp [chars, group]

/-- What is known of an expression whose text can be read. -/
structure Reads (a : Expr) : Prop where
  /-- With what follows, the text is that of no other expression. -/
  unique : ∀ {b : Expr} {r r' : List Char}, Stops isNamePart r → Stops isNamePart r' →
    a.chars ++ r = b.chars ++ r' → a = b ∧ r = r'
  /-- The text is not that of a negation in parentheses. -/
  ne_group : ∀ {b : Expr} {r r' : List Char}, b.isNot = true → a.chars ++ r ≠ group b.chars ++ r'

section

variable {a b : Expr} {r r' : List Char}

/-- A mark behind the expression ends it. -/
theorem Reads.cons (h : a.Reads) {c c' : Char} (hc : isNamePart c = false)
    (hc' : isNamePart c' = false) (e : a.chars ++ c :: r = b.chars ++ c' :: r') :
    a = b ∧ c = c' ∧ r = r' := by
  obtain ⟨hab, hrest⟩ := h.unique (stops_cons hc) (stops_cons hc') e
  exact ⟨hab, List.cons.inj hrest⟩

theorem Reads.cons_ne (h : a.Reads) {c c' : Char} (hc : isNamePart c = false)
    (hc' : isNamePart c' = false) (hne : c ≠ c') :
    a.chars ++ c :: r ≠ b.chars ++ c' :: r' := fun e => hne (h.cons hc hc' e).2.1

/-- An expression in parentheses is the text of no expression but, perhaps, a negation. -/
theorem Reads.group_ne (h : a.Reads) (hb : b.isNot = false) :
    group a.chars ++ r ≠ b.chars ++ r' := by
  intro e
  rw [group_append] at e
  cases b with
  | leaf w => exact w.append_ne (by decide) e.symm
  | not b => cases hb
  | binary op x y =>
    rw [chars_binary_append] at e
    exact h.cons_ne (by decide) (by decide) (by decide) (List.cons.inj e).2
  | cast ty x =>
    rw [chars_cast_append] at e
    exact h.cons_ne (by decide) (by decide) (by decide) (List.cons.inj e).2

end

theorem reads_leaf (w : Word) : (leaf w).Reads where
  unique := by
    intro b r r' hr hr' h
    cases b with
    | leaf w' =>
      obtain ⟨hw, hrest⟩ := append_inj_of_forall (fun c hc => w.isNamePart_of_mem hc)
        (fun c hc => w'.isNamePart_of_mem hc) hr hr' h
      exact ⟨congrArg leaf (Word.eq_of_toList hw), hrest⟩
    | binary op x y => exact absurd h (w.append_ne (by decide))
    | not x => exact absurd h (w.append_ne (by decide))
    | cast ty x => exact absurd h (w.append_ne (by decide))
  ne_group := by
    intro b r r' hb
    rw [group_append]
    exact w.append_ne (by decide)

theorem reads_binary (op : Operator) {a b : Expr} (ha : a.Reads) (hb : b.Reads) :
    (binary op a b).Reads where
  unique := by
    intro e r r' hr hr' h
    rw [chars_binary_append] at h
    cases e with
    | leaf w => exact absurd h.symm (w.append_ne (by decide))
    | not x => exact absurd (List.cons.inj h).1 (by decide)
    | binary op' x y =>
      rw [chars_binary_append] at h
      obtain ⟨rfl, -, hrest⟩ := ha.cons (by decide) (by decide) (List.cons.inj h).2
      obtain ⟨hop, hrest⟩ :=
        append_blank_inj (fun c hc => (mem_symbol hc).1) (fun c hc => (mem_symbol hc).1) hrest
      obtain ⟨rfl, -, hrest⟩ := hb.cons (by decide) (by decide) hrest
      exact ⟨by rw [eq_of_symbol hop], hrest⟩
    | cast ty x =>
      rw [chars_cast_append] at h
      obtain ⟨-, -, hrest⟩ := ha.cons (by decide) (by decide) (List.cons.inj h).2
      exact absurd hrest (symbol_ne_as op)
  ne_group := by
    intro e r r' he h
    rw [chars_binary_append, group_append] at h
    exact ha.cons_ne (by decide) (by decide) (by decide) (List.cons.inj h).2

theorem reads_cast (ty : IntWidth) {a : Expr} (ha : a.Reads) : (cast ty a).Reads where
  unique := by
    intro e r r' hr hr' h
    rw [chars_cast_append] at h
    cases e with
    | leaf w => exact absurd h.symm (w.append_ne (by decide))
    | not x => exact absurd (List.cons.inj h).1 (by decide)
    | binary op x y =>
      rw [chars_binary_append] at h
      obtain ⟨-, -, hrest⟩ := ha.cons (by decide) (by decide) (List.cons.inj h).2
      exact absurd hrest.symm (symbol_ne_as op)
    | cast ty' x =>
      rw [chars_cast_append] at h
      obtain ⟨rfl, -, hrest⟩ := ha.cons (by decide) (by decide) (List.cons.inj h).2
      -- the two type names stand behind the same mark
      simp only [List.cons.injEq, true_and] at hrest
      obtain ⟨hty, hrest⟩ :=
        append_inj_of_forall (fun c hc => isNamePart_of_mem_name hc)
          (fun c hc => isNamePart_of_mem_name hc) (stops_cons (by decide))
          (stops_cons (by decide)) hrest
      exact ⟨by rw [eq_of_name hty], (List.cons.inj hrest).2⟩
  ne_group := by
    intro e r r' he h
    rw [chars_cast_append, group_append] at h
    exact ha.cons_ne (by decide) (by decide) (by decide) (List.cons.inj h).2

theorem reads_not {a : Expr} (ha : a.Reads) : (not a).Reads where
  unique := by
    intro e r r' hr hr' h
    cases e with
    | leaf w => exact absurd h.symm (w.append_ne (by decide))
    | binary op x y => exact absurd (List.cons.inj h).1 (by decide)
    | cast ty x => exact absurd (List.cons.inj h).1 (by decide)
    | not b =>
      cases hna : a.isNot with
      | true =>
        rw [chars_not_of_isNot hna] at h
        cases hnb : b.isNot with
        | true =>
          rw [chars_not_of_isNot hnb, List.cons_append, List.cons_append, group_append,
            group_append] at h
          obtain ⟨rfl, -, hrest⟩ :=
            ha.cons (by decide) (by decide) (List.cons.inj (List.cons.inj h).2).2
          exact ⟨rfl, hrest⟩
        | false =>
          rw [chars_not_of_not hnb] at h
          exact absurd (List.cons.inj h).2 (ha.group_ne hnb)
      | false =>
        rw [chars_not_of_not hna] at h
        cases hnb : b.isNot with
        | true =>
          rw [chars_not_of_isNot hnb] at h
          exact absurd (List.cons.inj h).2 (ha.ne_group hnb)
        | false =>
          rw [chars_not_of_not hnb] at h
          obtain ⟨rfl, hrest⟩ := ha.unique hr hr' (List.cons.inj h).2
          exact ⟨rfl, hrest⟩
  ne_group := by
    intro e r r' he h
    exact absurd (List.cons.inj h).1 (by decide)

/-- **Every expression can be read from its text.** -/
theorem reads (e : Expr) : e.Reads := by
  induction e with
  | leaf w => exact reads_leaf w
  | binary op a b iha ihb => exact reads_binary op iha ihb
  | not a ih => exact reads_not ih
  | cast ty a ih => exact reads_cast ty ih

theorem chars_injective : Function.Injective chars := by
  intro a b h
  have hend : Stops isNamePart [] := fun c hc => absurd hc (by simp)
  exact ((reads a).unique hend hend (by rw [h])).1

end Expr

/-! ## Fragments -/

/-- **Fragments are unambiguous.**  Whatever code puts two expressions together, on whatever
machines, each pushes one fragment on the stack as it was, and the fragments are equal just
if the expressions are. -/
theorem fragment_eq_iff {m m' : Machine} {c c' : List Instruction} {e e' : Expr} (h : Builds m c e)
    (h' : Builds m' c' e') :
    ∃ f f', (c.foldl Machine.step m).stack = f :: m.stack ∧
      (c'.foldl Machine.step m').stack = f' :: m'.stack ∧
      (f = f' ↔ e = e') := by
  refine ⟨_, _, h.stack, h'.stack, ?_⟩
  rw [String.ofList_inj, Expr.chars_injective.eq_iff]

/-- A word. -/
def flag : Word := ⟨"flag", by decide, by decide⟩

/-- A negation of a negation: `!(!flag)`. -/
def doubled : Expr := .not (.not (.leaf flag))

/-- A negation of an operation on a negation: `!(!flag && flag)`. -/
def excluded : Expr := .not (.binary .and (.not (.leaf flag)) (.leaf flag))

/-- A machine that nothing has been run on. -/
def idle : Machine := .start { name := "flip" } {}

/-- The two kinds of parentheses behind an exclamation mark. -/
theorem fragment_eq_iff_doubled :
    Builds idle doubled.code doubled ∧ Builds idle excluded.code excluded ∧
    ∃ f f', (doubled.code.foldl Machine.step idle).stack = [f] ∧
      (excluded.code.foldl Machine.step idle).stack = [f'] ∧
      (f = f' ↔ doubled = excluded) :=
  ⟨builds_code _ _, builds_code _ _, fragment_eq_iff (builds_code _ _) (builds_code _ _)⟩

example :
    ((doubled.code ++ excluded.code).foldl Machine.step idle).stack =
      ["!(!flag && flag)", "!(!flag)"] := by
  decide +kernel

end PseudoMove.UniqueReading
