import PseudoMove.Config.File
import PseudoMove.Proofs.FileTreeWrites
import PseudoMove.Proofs.JsonText
import Mathlib

/-!
# Settings files

Settings are written as an object with every field, and read from objects with some of the
fields, in any order and among members of other names.  So a file that was written gives its
settings back, and one that gives less gives the rest of the defaults; and in both cases they are
checked (`load_eq_checked`).

* `spelled_toJson` — settings are written with numbers that are spelled as JSON wants them: no zero
  in front;
* `pick` — some of the fields of settings and the others of their defaults, one field
  after another (`pick_cons`);
* `setAll?_get`, `ofJson?_object` — values that were taken from settings can be set again, over any
  others.
-/

namespace PseudoMove

open Text

/-! ## Numbers -/

namespace Json

/-- Only zero begins with a zero. -/
theorem head?_toDigits {n : Nat} (h : (Nat.toDigits 10 n).head? = some '0') : n = 0 := by
  induction n using Nat.strong_induction_on with
  | _ n ih =>
    rcases Nat.lt_or_ge n 10 with hn | hn
    · have hsmall : ∀ m < 10, (Nat.toDigits 10 m).head? = some '0' → m = 0 := by decide
      exact hsmall n hn h
    · rw [Nat.toDigits_of_base_le (by decide) hn,
        List.head?_append_of_ne_nil _ (toDigits_ne_nil _)] at h
      have hzero := ih (n / 10) (Nat.div_lt_self (by omega) (by decide)) h
      omega

/-- **A number that is written is a number for a reader.** -/
theorem spelled_nat (n : Nat) : Spelled (.nat n) := by
  have hall : ∀ c ∈ Nat.toDigits 10 n, c.isDigit = true := fun c hc => isDigit_of_mem_toDigits hc
  have hdigits : digits? (Nat.toDigits 10 n) = some (Nat.toDigits 10 n, []) := by
    obtain ⟨c, s, hs⟩ := List.exists_cons_of_ne_nil (toDigits_ne_nil n)
    unfold digits?
    rw [List.takeWhile_eq_self_iff.2 hall, List.dropWhile_eq_nil_iff.2 hall, hs]
  have hwhole : wholePart? (Nat.toDigits 10 n) = some (Nat.toDigits 10 n, []) := by
    rw [wholePart?, hdigits]
    refine if_neg fun hzero => hzero.2 ?_
    rw [head?_toDigits hzero.1]
    rfl
  refine .number ?_
  rw [Nat.toString_eq_repr, Nat.toList_repr, number?, unsigned?, hwhole]
  · simp [fractionPart?, exponentPart?]
  · intro s hs
    exact absurd (hall '-' (hs ▸ List.mem_cons_self)) (by decide)

theorem asWord?_nat {n : Nat} (h : n < wordLimit) : (nat n).asWord? = some n := by
  rw [nat, asWord?, Nat.toString_eq_repr, Nat.toList_repr, readDigits?_toDigits h]

end Json

namespace Config

open Json

/-- All numbers are machine words. -/
structure FitsWords (c : Config) : Prop where
  indentSize : c.indentSize < wordLimit
  maxInstructionsPerFunction : c.maxInstructionsPerFunction < wordLimit
  jobs : c.jobs < wordLimit

/-! ## Fields -/

theorem spelled_get (c : Config) (k : Key) : Spelled (c.get k) := by
  cases k with
  | indentSize => exact spelled_nat _
  | maxInstructionsPerFunction => exact spelled_nat _
  | jobs => exact spelled_nat _
  | emitHeaderComment => exact .bool _
  | emitBranchComments => exact .bool _
  | keepTypeArguments => exact .bool _
  | renderUseDeclarations => exact .bool _

theorem spelled_toJson (c : Config) : Spelled c.toJson := by
  refine .object fun m hm => ?_
  obtain ⟨k, -, rfl⟩ := List.mem_map.1 hm
  exact c.spelled_get k

/-- A field is known by its name. -/
theorem Key.ofName?_name (k : Key) : Key.ofName? k.name = some k := by
  cases k <;> decide

theorem Key.ofName?_of_notMem {name : String} (h : name ∉ Key.all.map Key.name) :
    Key.ofName? name = none := by
  refine List.find?_eq_none.2 fun k hk heq => h ?_
  exact List.mem_map.2 ⟨k, hk, of_decide_eq_true heq⟩

/-- The fields `ks` of `c`, and the others of `d`. -/
def pick (c d : Config) (ks : List Key) : Config where
  indentSize := if .indentSize ∈ ks then c.indentSize else d.indentSize
  emitHeaderComment := if .emitHeaderComment ∈ ks then c.emitHeaderComment else d.emitHeaderComment
  emitBranchComments :=
    if .emitBranchComments ∈ ks then c.emitBranchComments else d.emitBranchComments
  keepTypeArguments := if .keepTypeArguments ∈ ks then c.keepTypeArguments else d.keepTypeArguments
  renderUseDeclarations :=
    if .renderUseDeclarations ∈ ks then c.renderUseDeclarations else d.renderUseDeclarations
  maxInstructionsPerFunction :=
    if .maxInstructionsPerFunction ∈ ks then c.maxInstructionsPerFunction
    else d.maxInstructionsPerFunction
  jobs := if .jobs ∈ ks then c.jobs else d.jobs

variable (c d : Config)

theorem pick_nil : c.pick d [] = d := by simp [pick]

theorem pick_all : c.pick d Key.all = c := by simp [pick, Key.all]

/-- One field after another. -/
theorem pick_cons (k : Key) (ks : List Key) : c.pick (c.pick d [k]) ks = c.pick d (k :: ks) := by
  have hcons {α : Type} (a : Key) (x y : α) :
      (if a ∈ ks then x else if a ∈ [k] then x else y) = if a ∈ k :: ks then x else y := by
    by_cases hk : a = k <;> by_cases hks : a ∈ ks <;> simp [hk, hks]
  simp only [pick, hcons]

section

variable {c} (hc : c.FitsWords)
include hc

/-- A value that was taken from a field can be set. -/
theorem set?_get (k : Key) : d.set? k (c.get k) = some (c.pick d [k]) := by
  cases k with
  | indentSize => simp [set?, get, pick, asWord?_nat hc.indentSize]
  | maxInstructionsPerFunction => simp [set?, get, pick, asWord?_nat hc.maxInstructionsPerFunction]
  | jobs => simp [set?, get, pick, asWord?_nat hc.jobs]
  | emitHeaderComment => simp [set?, get, pick, asBool?]
  | emitBranchComments => simp [set?, get, pick, asBool?]
  | keepTypeArguments => simp [set?, get, pick, asBool?]
  | renderUseDeclarations => simp [set?, get, pick, asBool?]

theorem setAll?_get (ks : List Key) :
    d.setAll? (ks.map fun k => (k, c.get k)) = some (c.pick d ks) := by
  unfold setAll?
  induction ks generalizing d with
  | nil => rw [pick_nil]; rfl
  | cons k ks ih =>
    rw [List.map_cons, List.foldlM_cons, set?_get d hc]
    exact (ih _).trans (congrArg some (c.pick_cons d k ks))

end

/-! ## Objects -/

/-- Of the members, those that are named like fields give the fields `ks` their values
in `c`, in this order. -/
def Gives (members : List (String × Json)) (c : Config) (ks : List Key) : Prop :=
  members.filter (fun m => m.1 ∈ Key.all.map Key.name) = ks.map fun k => (k.name, c.get k)

theorem givenFields_of_gives {members : List (String × Json)} {c : Config} {ks : List Key}
    (h : Gives members c ks) :
    givenFields members = ks.map fun k => (k, c.get k) := by
  -- members of other names give nothing
  have hfilter : givenFields members =
      givenFields (members.filter fun m => m.1 ∈ Key.all.map Key.name) := by
    unfold givenFields
    rw [List.filterMap_filter]
    refine List.filterMap_congr fun m _ => ?_
    by_cases hm : m.1 ∈ Key.all.map Key.name
    · rw [if_pos (decide_eq_true hm)]
    · rw [if_neg (by simpa using hm), Key.ofName?_of_notMem hm, Option.map_none]
  rw [hfilter, h, givenFields, List.filterMap_map, ← List.filterMap_eq_map]
  refine List.filterMap_congr fun k _ => ?_
  simp only [Function.comp_apply, Key.ofName?_name, Option.map_some]

/-- An object that gives some fields is read over the defaults. -/
theorem ofJson?_object {c : Config} (hc : c.FitsWords) (defaults : Config)
    {members : List (String × Json)} {ks : List Key} (hks : ks.Nodup) (h : Gives members c ks) :
    ofJson? defaults (.object members) = some (c.pick defaults ks) := by
  have hkeys : (givenFields members).map (·.1) = ks := by
    rw [givenFields_of_gives h, List.map_map]
    exact List.map_id _
  rw [ofJson?, hkeys, if_pos hks, givenFields_of_gives h, setAll?_get defaults hc]

/-- Settings are written with every field. -/
theorem gives_toJson (c : Config) : Gives (Key.all.map fun k => (k.name, c.get k)) c Key.all := by
  refine List.filter_eq_self.2 fun m hm => ?_
  obtain ⟨k, hk, rfl⟩ := List.mem_map.1 hm
  exact decide_eq_true (List.mem_map_of_mem hk)

/-! ## Files -/

/-- Settings that are checked: themselves, or what is wrong with them. -/
def checked (c : Config) : Except ConfigFault Config :=
  (c.validate.mapError .invalid).map fun _ => c

theorem readText_object {c : Config} (hc : c.FitsWords) (defaults : Config) {contents : String}
    {members : List (String × Json)}
    (hread : Json.readWith? false contents = some (.object members)) {ks : List Key}
    (hks : ks.Nodup) (h : Gives members c ks) :
    readText defaults contents = (c.pick defaults ks).checked := by
  rw [readText, hread, Option.bind_some, ofJson?_object hc defaults hks h]
  dsimp only
  unfold checked validate
  cases (c.pick defaults ks).fault? with
  | none => rfl
  | some f => rfl

/-- The name says that the file is JSON. -/
def IsJsonPath (path : String) : Prop := (Path.extension? path.toList).any isJsonEnding

instance (path : String) : Decidable (IsJsonPath path) := inferInstanceAs (Decidable (_ = true))

theorem load_of_read {t : FileTree} {path contents : String} (defaults : Config)
    (hpath : IsJsonPath path) (h : t.read path = .ok contents) :
    load defaults t path = readText defaults contents := by
  obtain ⟨ending, hending, hjson⟩ := (Option.any_eq_true _ _).1 hpath
  rw [load, if_pos (FileTree.has_of_read h)]
  simp only [hending, Option.getD_some, if_pos hjson, h]

theorem save_of_json (c : Config) {t t' : FileTree} {path : String} (hpath : IsJsonPath path)
    (h : t.save path (Json.print .pretty c.toJson) = .ok t') : c.save t path = .ok t' := by
  obtain ⟨ending, hending, hjson⟩ := (Option.any_eq_true _ _).1 hpath
  simp only [save, hending, Option.getD_some, if_pos hjson, h]

/-- **What a settings file says is what is read, and it is checked.**  Wherever one can write,
settings that are saved are read as they are.  A file with an object that gives some fields, in any
order and among members of other names, is read as these fields over the defaults. -/
theorem load_eq_checked (defaults : Config) {c : Config} (hc : c.FitsWords) (t : FileTree)
    {path : String} (hpath : IsJsonPath path) :
    (t.canSave path → ∃ t', c.save t path = .ok t' ∧ load defaults t' path = c.checked) ∧
    ∀ ks members contents, ks.Nodup → Gives members c ks → Json.readWith? false contents =
      some (.object members) →
      t.read path = .ok contents → load defaults t path = (c.pick defaults ks).checked := by
  refine ⟨fun hsave => ?_, fun ks members contents hks hgives hread hcontents => ?_⟩
  · obtain ⟨t', ht'⟩ := FileTree.exists_save hsave (Json.print .pretty c.toJson)
    refine ⟨t', c.save_of_json hpath ht', ?_⟩
    have hread := Json.readWith?_print .pretty false c.spelled_toJson
    have hall := readText_object hc defaults hread (by decide) c.gives_toJson
    rw [pick_all] at hall
    rw [load_of_read defaults hpath (FileTree.read_of_save ht'), hall]
  · rw [load_of_read defaults hpath hcontents, readText_object hc defaults hread hks hgives]

/-- Settings that cannot be used, as they leave nobody to work. -/
def idle : Config := { indentSize := 2, keepTypeArguments := true, jobs := 0 }

/-- Two of their fields, and a member that is no field. -/
def someFields : List (String × Json) :=
  [("keep_type_arguments", .bool true), ("colour", .null), ("indent_size", .nat 2)]

theorem spelled_someFields : Spelled (.object someFields) := by
  refine .object fun m hm => ?_
  rcases List.mem_cons.1 hm with rfl | hm
  · exact .bool true
  · rcases List.mem_cons.1 hm with rfl | hm
    · exact .null
    · obtain rfl := List.mem_singleton.1 hm
      exact spelled_nat 2

/-- What is written of settings that cannot be used cannot be read, but a file with
two of their fields can. -/
theorem load_eq_checked_idle :
    idle.FitsWords ∧ IsJsonPath "settings.json" ∧
    (∃ t', idle.save {} "settings.json" = .ok t' ∧
      load { jobs := 8 } t' "settings.json" = .error (.invalid .noJobs)) ∧
    ∃ t : FileTree, t.read "settings.json" = .ok (Json.print .compact (.object someFields)) ∧
      load { jobs := 8 } t "settings.json" =
        .ok { indentSize := 2, keepTypeArguments := true, jobs := 8 } := by
  have hfits : idle.FitsWords := ⟨by decide, by decide, by decide⟩
  have hpath : IsJsonPath "settings.json" := by decide
  have hsave : ({} : FileTree).canSave "settings.json" := by decide +kernel
  obtain ⟨t, ht⟩ := FileTree.exists_save hsave (Json.print .compact (.object someFields))
  have hcontents := FileTree.read_of_save ht
  have hread := Json.readWith?_print .compact false spelled_someFields
  have hgives : Gives someFields idle [.keepTypeArguments, .indentSize] := rfl
  exact ⟨hfits, hpath, (load_eq_checked { jobs := 8 } hfits {} hpath).1 hsave, t, hcontents,
    (load_eq_checked { jobs := 8 } hfits t hpath).2 [.keepTypeArguments, .indentSize] _ _
    (by decide) hgives hread hcontents⟩

end Config

end PseudoMove
