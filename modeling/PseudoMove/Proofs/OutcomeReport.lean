import PseudoMove.Report
import PseudoMove.Proofs.JsonText

/-!
# The report of an outcome loses nothing

Whatever strings it holds, and in both layouts, the JSON report of an outcome is read as one object
with four members, from which the name of the input, the success, the warnings and either the module
or the fallback text can be had again (`outcomeJson_reads`).

Most of it is about the record of a module.  What is common to all records comes first: an object in
which no name occurs twice gives its fields (`fields?_object`), a list is read if each item is
(`list?_map`), and a choice is known by its name (`choice?_name`).  Reading a record is then a line
of rewriting with the readers of its fields, up to `PseudoModule.ofJson?_toJson`; that its text can
be read at all is `Spelled`, which `simp` finds from the same parts.
-/

namespace PseudoMove

namespace Json

/-! ## Fields, lists and choices -/

theorem mapM_eq_some {α β : Type} {f : α → Option β} {g : α → β} {as : List α}
    (h : ∀ a ∈ as, f a = some (g a)) :
    as.mapM f = some (as.map g) := by
  induction as with
  | nil => rfl
  | cons a as ih =>
    rw [List.mapM_cons, h a List.mem_cons_self, ih fun b hb => h b (List.mem_cons_of_mem a hb)]
    rfl

/-- Without repetition, a name has one member. -/
theorem filter_name {members : List (String × Json)} (h : (members.map (·.1)).Nodup)
    {m : String × Json} (hm : m ∈ members) : members.filter (·.1 = m.1) = [m] := by
  induction members with
  | nil => exact absurd hm List.not_mem_nil
  | cons x xs ih =>
    obtain ⟨hx, hxs⟩ := List.nodup_cons.1 h
    rcases List.mem_cons.1 hm with rfl | hm
    · have hnone : xs.filter (·.1 = m.1) = [] :=
        List.filter_eq_nil_iff.2 fun y hy he => hx (List.mem_map.2 ⟨y, hy, of_decide_eq_true he⟩)
      rw [List.filter_cons_of_pos (by simp), hnone]
    · have hne : x.1 ≠ m.1 := fun he => hx (List.mem_map.2 ⟨m, hm, he.symm⟩)
      rw [List.filter_cons_of_neg (by simpa using hne), ih hxs hm]

/-- **The fields of an object** are its members, if no name is repeated. -/
theorem fields?_object {names : List String} {members : List (String × Json)}
    (hnames : members.map (·.1) = names) (h : names.Nodup) :
    fields? names (.object members) = some (members.map (·.2)) := by
  subst hnames
  rw [fields?, List.mapM_map]
  refine mapM_eq_some fun m hm => ?_
  rw [Function.comp_apply, filter_name h hm]

/-- A list is read if each item is. -/
theorem list?_map {α : Type} {toJson : α → Json} {item? : Json → Option α}
    (h : ∀ a, item? (toJson a) = some a) (as : List α) :
    list? item? (.array (as.map toJson)) = some as := by
  have hitems : (as.map toJson).mapM item? = some as := by
    rw [List.mapM_map, mapM_eq_some (f := item? ∘ toJson) (g := id) fun a _ => h a, List.map_id]
  exact hitems

@[simp]
theorem list?_strings (ss : List String) : list? asString? (strings ss) = some ss := by
  have hone (s : String) : asString? (.string s) = some s := rfl
  exact list?_map hone ss

/-- A choice is known by its name. -/
theorem choice?_name {α : Type} {choices : List α} {name : α → String} (hall : ∀ a, a ∈ choices)
    (hname : Function.Injective name) (a : α) :
    choice? choices name (.string (name a)) = some a := by
  obtain ⟨b, hb⟩ : ∃ b, choices.find? (fun b => name b = name a) = some b :=
    Option.isSome_iff_exists.1 (List.find?_isSome.2 ⟨a, hall a, by simp⟩)
  have hba : name b = name a :=
    of_decide_eq_true (List.find?_some (p := fun b => decide (name b = name a)) hb)
  rw [choice?, hb, hname hba]

/-! ## What is spelled right -/

@[simp]
theorem spelled_array {vs : List Json} : Spelled (.array vs) ↔ ∀ v ∈ vs, Spelled v :=
  ⟨fun h => by cases h; assumption, .array⟩

@[simp]
theorem spelled_object {ms : List (String × Json)} : Spelled (.object ms) ↔ ∀ m ∈ ms, Spelled m.2 :=
  ⟨fun h => by cases h; assumption, .object⟩

attribute [simp] Spelled.string Spelled.bool

@[simp]
theorem spelled_strings (ss : List String) : Spelled (strings ss) := by
  simp [strings]

end Json

open Json

/-! ## Declarations -/

namespace Field

@[simp]
theorem spelled_toJson (f : Field) : Spelled f.toJson := by
  simp [toJson]

theorem ofJson?_toJson (f : Field) : ofJson? f.toJson = some f := by
  rw [ofJson?, toJson, fields?_object (by rfl) (by decide)]
  rfl

end Field

theorem Ability.choice?_name (a : Ability) : choice? all name (.string a.name) = some a :=
  Json.choice?_name (fun a => by cases a <;> decide)
    (fun a b h => by cases a <;> cases b <;> first | rfl | exact absurd h (by decide)) a

namespace StructDecl

@[simp]
theorem spelled_toJson (d : StructDecl) : Spelled d.toJson := by
  simp [toJson]

theorem ofJson?_toJson (d : StructDecl) : ofJson? d.toJson = some d := by
  have habilities : list? (choice? Ability.all Ability.name) (strings (d.abilities.map (·.name))) =
      some d.abilities := by
    rw [strings, List.map_map]
    exact list?_map Ability.choice?_name d.abilities
  rw [ofJson?, toJson, fields?_object (by rfl) (by decide)]
  simp only [List.map_cons, List.map_nil, bind, Option.bind_some, list?_strings, habilities,
    list?_map Field.ofJson?_toJson, asString?]

end StructDecl

namespace Parameter

@[simp]
theorem spelled_toJson (p : Parameter) : Spelled p.toJson := by
  simp [toJson]

theorem ofJson?_toJson (p : Parameter) : ofJson? p.toJson = some p := by
  rw [ofJson?, toJson, fields?_object (by rfl) (by decide)]
  rfl

end Parameter

theorem Visibility.choice?_name (v : Visibility) : choice? all name (.string v.name) = some v :=
  Json.choice?_name (fun v => by cases v <;> decide)
    (fun v w h => by cases v <;> cases w <;> first | rfl | exact absurd h (by decide)) v

namespace PseudoFunction

@[simp]
theorem spelled_toJson (f : PseudoFunction) : Spelled f.toJson := by
  simp [toJson, FunctionHeader.members]

theorem ofJson?_toJson (f : PseudoFunction) : ofJson? f.toJson = some f := by
  rw [ofJson?, toJson, fields?_object (by rfl) (by decide)]
  simp only [FunctionHeader.members, List.cons_append, List.nil_append,
    List.map_cons, List.map_nil, bind, Option.bind_some,
    list?_strings, list?_map Parameter.ofJson?_toJson, Visibility.choice?_name, asString?]

end PseudoFunction

namespace UseDecl

@[simp]
theorem spelled_toJson (d : UseDecl) : Spelled d.toJson := by
  simp [toJson]

theorem ofJson?_toJson (d : UseDecl) : ofJson? d.toJson = some d := by
  rw [ofJson?, toJson, fields?_object (by rfl) (by decide)]
  rfl

end UseDecl

namespace ConstDecl

@[simp]
theorem spelled_toJson (d : ConstDecl) : Spelled d.toJson := by
  simp [toJson]

theorem ofJson?_toJson (d : ConstDecl) : ofJson? d.toJson = some d := by
  rw [ofJson?, toJson, fields?_object (by rfl) (by decide)]
  rfl

end ConstDecl

namespace PseudoModule

@[simp]
theorem spelled_toJson (m : PseudoModule) : Spelled m.toJson := by
  simp [toJson]

/-- **The record of a module is read as this module.** -/
theorem ofJson?_toJson (m : PseudoModule) : ofJson? m.toJson = some m := by
  rw [ofJson?, toJson, fields?_object (by rfl) (by decide)]
  simp only [List.map_cons, List.map_nil, bind, Option.bind_some, asString?,
    list?_map UseDecl.ofJson?_toJson, list?_map ConstDecl.ofJson?_toJson,
    list?_map StructDecl.ofJson?_toJson, list?_map PseudoFunction.ofJson?_toJson]

end PseudoModule

/-! ## Reports -/

namespace Report

/-- The member of a report that stands for the result: the module, or the text in its place. -/
def resultMember (o : Outcome) : String × Json :=
  match o.module with
  | some m => ("module", m.toJson)
  | none => ("fallback", .string o.source)

/-- The members of a report. -/
def members (input : String) (o : Outcome) : List (String × Json) :=
  [("input", .string input), ("success", .bool o.isSuccess), resultMember o,
    ("warnings", strings o.warnings)]

theorem outcomeJson_eq (input : String) (o : Outcome) :
    outcomeJson input o = .object (members input o) := by
  rw [outcomeJson, members, resultMember]
  cases o.module <;> rfl

@[simp]
theorem spelled_outcomeJson (input : String) (o : Outcome) : Spelled (outcomeJson input o) := by
  rw [outcomeJson_eq]
  cases h : o.module <;> simp [members, resultMember, h]

/-- **A report loses nothing.**  Its text is read as an object with the same input, success and
warnings.  It has a module exactly when the outcome is no fallback, and then this module;
otherwise it has the source. -/
theorem outcomeJson_reads (layout : Layout) (input : String) (o : Outcome) :
    ∃ members, read? (print layout (outcomeJson input o)) = some (.object members) ∧
      members.map (·.1) =
        ["input", "success", if o.isFallback then "fallback" else "module", "warnings"] ∧
      (member? members "input").bind asString? = some input ∧
      (member? members "success").bind asBool? = some o.isSuccess ∧
      (member? members "warnings").bind (list? asString?) = some o.warnings ∧
      (member? members "module").isSome = !o.isFallback ∧
      (member? members "module").bind PseudoModule.ofJson? = o.module ∧
      (member? members "fallback").bind asString? =
        if o.isFallback then some o.source else none := by
  refine ⟨members input o,
    by rw [← outcomeJson_eq, read?_print layout (spelled_outcomeJson input o)], ?_⟩
  cases h : o.module with
  | none =>
    have hfallback : o.isFallback = true := by rw [Outcome.isFallback, h]; rfl
    simp only [members, resultMember, h, hfallback]
    exact ⟨rfl, rfl, rfl, list?_strings _, rfl, rfl, rfl⟩
  | some m =>
    have hfallback : o.isFallback = false := by rw [Outcome.isFallback, h]; rfl
    simp only [members, resultMember, h, hfallback]
    exact ⟨rfl, rfl, rfl, list?_strings _, rfl, PseudoModule.ofJson?_toJson m, rfl⟩

end Report

end PseudoMove
