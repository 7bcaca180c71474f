import PseudoMove.Proofs.NameShape

/-!
# Arithmetic as text

Statements that assign and return terms over names, literals and the operators `+`, `-` and `*`, as
they are written, and what it means to execute them over the integers.  The meaning is the meaning
of a text, as a text is the text of at most one list of statements (`Stmt.text_injective`).

A name may have brackets in it, so that a text cannot be read from the left: after `((a` it is open
what is a name. From the right it can.  A term ends with a letter, a number or an underscore if it
is a name or a literal, and with a bracket if it is not; a name goes on to the left up to a blank or
to the opening brackets of the terms around it, and how many these are is known by then.
-/

namespace PseudoMove.Arithmetic

open Identifier

/-! ## Terms and statements -/

/-- The operators of exact arithmetic. -/
inductive Op where
  | add | sub | mul
deriving DecidableEq, Repr

/-- The operator as one of the instruction set. -/
def Op.operator : Op → Operator
  | .add => .add
  | .sub => .sub
  | .mul => .mul

/-- What the operator computes. -/
def Op.apply : Op → Int → Int → Int
  | .add => (· + ·)
  | .sub => (· - ·)
  | .mul => (· * ·)

/-- A term. -/
inductive Term where
  | var (name : String)
  | lit (digits : String)
  | op (o : Op) (a b : Term)
deriving DecidableEq, Repr

namespace Term

/-- The text of a term. -/
def text : Term → String
  | var name => name
  | lit digits => digits
  | op o a b => "(" ++ a.text ++ " " ++ o.operator.symbol ++ " " ++ b.text ++ ")"

/-- The names in a term have the shape of names, and the literals are numbers. -/
def WellFormed : Term → Prop
  | var name => IsName name
  | lit digits => digits ≠ "" ∧ digits.toList.all Char.isDigit = true
  | op _ a b => a.WellFormed ∧ b.WellFormed

/-- The names in a term. -/
def vars : Term → List String
  | var name => [name]
  | lit _ => []
  | op _ a b => a.vars ++ b.vars

/-- The value of a term, where `env` gives names their values. -/
def eval (env : String → Option Int) : Term → Option Int
  | var name => env name
  | lit digits => some (Text.digitsValue digits.toList)
  | op o a b => (a.eval env).bind fun x => (b.eval env).map (o.apply x)

theorem eval_congr {env env' : String → Option Int} {t : Term} (h : ∀ x ∈ t.vars, env x = env' x) :
    t.eval env = t.eval env' := by
  induction t with
  | var x => exact h x List.mem_cons_self
  | lit ds => rfl
  | op o a b iha ihb =>
    unfold eval
    rw [iha fun x hx => h x (List.mem_append_left _ hx), ihb fun x hx =>
      h x (List.mem_append_right _ hx)]

end Term

/-- A statement: an assignment, which may declare its name, or a return. -/
inductive Stmt where
  | assign (declares : Bool) (name : String) (e : Term)
  | ret (e : Term)
deriving DecidableEq, Repr

namespace Stmt

/-- The text of a statement. -/
def text : Stmt → String
  | assign declares x e => (if declares then "let " else "") ++ x ++ " = " ++ e.text ++ ";"
  | ret e => "return " ++ e.text ++ ";"

/-- The names and literals in a statement have their shape. -/
def WellFormed : Stmt → Prop
  | assign _ x e => IsName x ∧ e.WellFormed
  | ret e => e.WellFormed

end Stmt

/-- The environment with the value of one name changed. -/
def assignTo (env : String → Option Int) (x : String) (v : Int) : String → Option Int :=
  fun y => if y = x then some v else env y

/-- Executes statements in order, up to the first return, and gives the value returned. -/
def exec (env : String → Option Int) : List Stmt → Option Int
  | [] => none
  | .assign _ x e :: ps => (e.eval env).bind fun v => exec (assignTo env x v) ps
  | .ret e :: _ => e.eval env

/-! ## Reading from the right -/

/-- What precedes a term, read from the right, after any opening brackets: nothing, or a blank. -/
def Stops (r : List Char) : Prop := ∀ c ∈ r.head?, c = ' '

theorem stops_nil : Stops [] := fun c h => absurd h (by simp)

theorem stops_cons (r : List Char) : Stops (' ' :: r) := by
  intro c h
  rw [List.head?_cons, Option.mem_some_iff] at h
  exact h.symm

theorem append_inj_of_stops {u u' r r' : List Char} (hu : ' ' ∉ u) (hu' : ' ' ∉ u') (hr : Stops r)
    (hr' : Stops r') (h : u ++ r = u' ++ r') : u = u' ∧ r = r' := by
  have split : ∀ {u r : List Char}, ' ' ∉ u → Stops r →
      (u ++ r).takeWhile (· ≠ ' ') = u ∧ (u ++ r).dropWhile (· ≠ ' ') = r := by
    intro u r hu hr
    have hu : ∀ c ∈ u, decide (c ≠ ' ') = true := by
      intro c hc
      exact decide_eq_true fun e => hu (e ▸ hc)
    rw [List.takeWhile_append_of_pos hu, List.dropWhile_append_of_pos hu]
    cases r with
    | nil => simp
    | cons c r =>
      have : c = ' ' := hr c rfl
      simp [this]
  obtain ⟨h1, h2⟩ := split hu hr
  obtain ⟨h1', h2'⟩ := split hu' hr'
  rw [h] at h1 h2
  exact ⟨h1.symm.trans h1', h2.symm.trans h2'⟩

/-- A word and the brackets before it are read from the right, if it is known how
many brackets there are. -/
theorem word_inj {w w' : String} {d : Nat} {r r' : List Char} (hw : ' ' ∉ w.toList)
    (hw' : ' ' ∉ w'.toList) (hr : Stops r) (hr' : Stops r')
    (h : w.toList.reverse ++ (List.replicate d '(' ++ r) =
      w'.toList.reverse ++ (List.replicate d '(' ++ r')) : w = w' ∧ r = r' := by
  have hspace : ∀ {w : String}, ' ' ∉ w.toList →
      ' ' ∉ w.toList.reverse ++ List.replicate d '(' := by
    intro w hw
    rw [List.mem_append, List.mem_reverse]
    rintro (h | h)
    · exact hw h
    · exact absurd (List.eq_of_mem_replicate h) (by decide)
  rw [← List.append_assoc, ← List.append_assoc] at h
  obtain ⟨hu, hr⟩ := append_inj_of_stops (hspace hw) (hspace hw') hr hr' h
  rw [List.append_cancel_right_eq, List.reverse_inj, String.toList_inj] at hu
  exact ⟨hu, hr⟩

namespace Term

/-- Whether a term is a name or a literal. -/
def isAtom : Term → Bool
  | op _ _ _ => false
  | _ => true

/-- A name or a literal, read from the right, has no blank and starts with a letter, a
number or an underscore. -/
theorem atom_reverse {t : Term} (ht : t.WellFormed) (h : t.isAtom = true) :
    ' ' ∉ t.text.toList ∧ ∃ c ∈ t.text.toList.reverse.head?, isPart c = true := by
  cases t with
  | var n =>
    refine ⟨IsName.noSpace ht, ?_⟩
    have := IsName.ends ht
    rw [List.head?_reverse]
    rw [Option.any_eq_true] at this
    exact this
  | lit ds =>
    obtain ⟨hne, hd⟩ := ht
    rw [List.all_eq_true] at hd
    refine ⟨fun hs => absurd (hd _ hs) (by decide), ?_⟩
    have hne : ds.toList ≠ [] := fun e => hne (String.toList_eq_nil_iff.1 e)
    rw [List.head?_reverse]
    refine ⟨ds.toList.getLast hne, List.getLast?_eq_some_getLast hne, ?_⟩
    exact isPart_of_isDigit (hd _ (List.getLast_mem hne))
  | op o a b => exact absurd h Bool.false_ne_true

/-- An operation, read from the right: the bracket, the second operand, the operator, the first
operand, and one more bracket before it. -/
theorem op_reverse (o : Op) (a b : Term) (d : Nat) (r : List Char) :
    (op o a b).text.toList.reverse ++ (List.replicate d '(' ++ r) =
      ')' :: (b.text.toList.reverse ++
        (List.replicate 0 '(' ++ (' ' :: (o.operator.symbol.toList.reverse ++
        ' ' :: (a.text.toList.reverse ++ (List.replicate (d + 1) '(' ++ r)))))) := by
  rw [show (op o a b).text = "(" ++ a.text ++ " " ++ o.operator.symbol ++ " " ++
    b.text ++ ")" from rfl]
  simp [List.replicate_succ]

theorem symbol_reverse (o : Op) : ∃ c, o.operator.symbol.toList.reverse = [c] ∧
    ∀ o' : Op, o'.operator.symbol.toList.reverse = [c] → o' = o := by
  cases o
  · exact ⟨'+', by decide, by intro o'; cases o' <;> decide⟩
  · exact ⟨'-', by decide, by intro o'; cases o' <;> decide⟩
  · exact ⟨'*', by decide, by intro o'; cases o' <;> decide⟩

/-- An atom and an operation end differently. -/
theorem atom_ne_op {t : Term} (ht : t.WellFormed) (h : t.isAtom = true) (o : Op) (a b : Term)
    {r r' : List Char} : t.text.toList.reverse ++ r ≠ (op o a b).text.toList.reverse ++ r' := by
  obtain ⟨-, c, hc, hpart⟩ := atom_reverse ht h
  have hclose := op_reverse o a b 0 r'
  rw [List.replicate_zero, List.nil_append] at hclose
  rw [hclose]
  intro e
  cases hu : t.text.toList.reverse with
  | nil =>
    rw [hu] at hc
    exact absurd hc (by simp)
  | cons c' u =>
    rw [hu, List.head?_cons, Option.mem_some_iff] at hc
    rw [hu, List.cons_append, List.cons.injEq, hc] at e
    rw [e.1] at hpart
    exact absurd hpart (by decide)

/-- Two atoms with one text are one: a name is no number. -/
theorem eq_of_text_atom {t s : Term} (ht : t.WellFormed) (hs : s.WellFormed) (hta : t.isAtom = true)
    (hsa : s.isAtom = true) (h : t.text = s.text) : t = s := by
  have hne : ∀ {n ds : String}, IsName n → ds.toList.all Char.isDigit = true → n ≠ ds := by
    rintro n ds hn hd rfl
    rw [hn.notNumber] at hd
    exact absurd hd (by decide)
  cases t with
  | var n =>
    cases s with
    | var n' => exact congrArg var h
    | lit ds => exact absurd h (hne ht hs.2)
    | op o a b => exact absurd hsa Bool.false_ne_true
  | lit ds =>
    cases s with
    | var n => exact absurd h.symm (hne hs ht.2)
    | lit ds' => exact congrArg lit h
    | op o a b => exact absurd hsa Bool.false_ne_true
  | op o a b => exact absurd hta Bool.false_ne_true

/-- **A term is read from the right.** With `d` opening brackets before it, its text and what
precedes it are those of one term only. -/
theorem text_inj {t s : Term} (ht : t.WellFormed) (hs : s.WellFormed) {d : Nat} {r r' : List Char}
    (hr : Stops r) (hr' : Stops r')
    (h : t.text.toList.reverse ++ (List.replicate d '(' ++ r) =
      s.text.toList.reverse ++ (List.replicate d '(' ++ r')) : t = s ∧ r = r' := by
  induction t generalizing s d r r' with
  | op o a b iha ihb =>
    cases s with
    | op o' a' b' =>
      rw [op_reverse, op_reverse, List.cons.injEq] at h
      obtain ⟨rfl, hrest⟩ := ihb ht.2 hs.2 (stops_cons _) (stops_cons _) h.2
      obtain ⟨c, hc, huniq⟩ := symbol_reverse o
      obtain ⟨c', hc', -⟩ := symbol_reverse o'
      rw [hc, hc'] at hrest
      simp only [List.cons.injEq, List.cons_append, List.nil_append, true_and] at hrest
      obtain ⟨rfl, ha⟩ := hrest
      obtain ⟨rfl, hr⟩ := iha ht.1 hs.1 hr hr' ha
      rw [huniq o' hc']
      exact ⟨rfl, hr⟩
    | _ => exact absurd h.symm (atom_ne_op hs rfl o a b)
  | _ =>
    cases s with
    | op o a b => exact absurd h (atom_ne_op ht rfl o a b)
    | _ =>
      obtain ⟨htext, hr⟩ := word_inj (atom_reverse ht rfl).1 (atom_reverse hs rfl).1 hr hr' h
      exact ⟨eq_of_text_atom ht hs rfl rfl htext, hr⟩

end Term

namespace Stmt

/-- What precedes the term of a statement, read from the right. -/
def lead : Stmt → List Char
  | assign declares x _ =>
    ' ' :: '=' :: ' ' :: (x.toList.reverse ++ if declares then [' ', 't', 'e', 'l'] else [])
  | ret _ => [' ', 'n', 'r', 'u', 't', 'e', 'r']

/-- The term of a statement. -/
def term : Stmt → Term
  | assign _ _ e => e
  | ret e => e

theorem text_reverse (p : Stmt) :
    p.text.toList.reverse =
      ';' :: (p.term.text.toList.reverse ++ (List.replicate 0 '(' ++ p.lead)) := by
  cases p with
  | assign declares x e => cases declares <;> simp [text, term, lead]
  | ret e => simp [text, term, lead]

/-- **A statement is determined by its text.** -/
theorem text_injective {p q : Stmt} (hp : p.WellFormed) (hq : q.WellFormed)
    (h : p.text = q.text) : p = q := by
  have hterm : ∀ {p : Stmt}, p.WellFormed → p.term.WellFormed ∧ Stops p.lead := by
    intro p hp
    cases p with
    | assign declares x e => exact ⟨hp.2, stops_cons _⟩
    | ret e => exact ⟨hp, stops_cons _⟩
  have h := congrArg (fun s : String => s.toList.reverse) h
  rw [text_reverse, text_reverse, List.cons.injEq] at h
  obtain ⟨he, hlead⟩ := Term.text_inj (hterm hp).1 (hterm hq).1 (hterm hp).2 (hterm hq).2 h.2
  cases p with
  | assign b x e =>
    cases q with
    | assign b' x' e' =>
      have htel : ∀ b : Bool, Stops (if b then [' ', 't', 'e', 'l'] else []) := by
        intro b
        cases b
        · exact stops_nil
        · exact stops_cons _
      simp only [lead, List.cons.injEq, true_and] at hlead
      obtain ⟨hx, hb⟩ := append_inj_of_stops (by simpa using hp.1.noSpace)
        (by simpa using hq.1.noSpace) (htel b) (htel b') hlead
      rw [List.reverse_inj, String.toList_inj] at hx
      have hb : b = b' := by cases b <;> cases b' <;> simp_all
      rw [hx, hb, show e = e' from he]
    | ret e' => exact absurd hlead (by simp [lead])
  | ret e =>
    cases q with
    | assign b' x' e' => exact absurd hlead (by simp [lead])
    | ret e' => exact congrArg ret he

end Stmt

/-! ## What a text means -/

/-- The lines are the text of statements that return the value `v`. -/
def Returns (lines : List String) (env : String → Option Int) (v : Int) : Prop :=
  ∃ ps : List Stmt, (∀ p ∈ ps, p.WellFormed) ∧ ps.map Stmt.text = lines ∧ exec env ps = some v

theorem map_text_injective {ps qs : List Stmt} (hp : ∀ p ∈ ps, p.WellFormed)
    (hq : ∀ q ∈ qs, q.WellFormed) (h : ps.map Stmt.text = qs.map Stmt.text) : ps = qs := by
  induction ps generalizing qs with
  | nil =>
    cases qs with
    | nil => rfl
    | cons q qs => exact absurd h (by simp)
  | cons p ps ih =>
    cases qs with
    | nil => exact absurd h (by simp)
    | cons q qs =>
      rw [List.map_cons, List.map_cons, List.cons.injEq] at h
      obtain ⟨hp', hps⟩ := List.forall_mem_cons.1 hp
      obtain ⟨hq', hqs⟩ := List.forall_mem_cons.1 hq
      rw [Stmt.text_injective hp' hq' h.1, ih hps hqs h.2]

/-- **Lines return one value at most.** -/
theorem Returns.unique {lines : List String} {env : String → Option Int} {v w : Int}
    (hv : Returns lines env v) (hw : Returns lines env w) : v = w := by
  obtain ⟨ps, hps, rfl, hv⟩ := hv
  obtain ⟨qs, hqs, htext, hw⟩ := hw
  obtain rfl := map_text_injective hqs hps htext
  exact Option.some.inj (hv.symm.trans hw)

end PseudoMove.Arithmetic
