import Mathlib.Data.List.Nodup
import PseudoMove.CommandLine.Run
import PseudoMove.Proofs.FileTreeWrites

/-!
# What a batch leaves behind

The files after several inputs are decompiled into a directory.  Messages and standard output do not
matter for them: a task is described by what it comes to and by the files it leaves (`Gives`).

* `gives_decompileInput`, `gives_report` — one input read, one outcome delivered;
* `gives_reports` — all outcomes delivered: the files are written one after another,
  until one cannot be written;
* `files_runInvocation` — the files after the whole command;
* `outputs_until_unwritable` — which outputs are there afterwards, when some inputs cannot be read
  and some outputs cannot be written;
* `outputs_apart_iff_stems` — when no output takes the place of another.
-/

namespace PseudoMove

namespace CommandLine

open OutputPath

/-! ## Tasks and files -/

/-- From any transcript with some files, the task comes to `r` and leaves the files `files'`. -/
def Gives {α : Type} (x : Task α) (files : FileTree) (r : Except String α) (files' : FileTree) :
    Prop :=
  ∀ t : Transcript, t.files = files → ∃ t' : Transcript, x.run t = (r, t') ∧ t'.files = files'

section Gives

variable {α β : Type} {x : Task α} {k : α → Task β} {f f' f'' : FileTree}

theorem Gives.bind {a : α} {r : Except String β} (hx : Gives x f (.ok a) f')
    (hk : Gives (k a) f' r f'') :
    Gives (x >>= k) f r f'' := by
  intro t ht
  obtain ⟨t', hrun, ht'⟩ := hx t ht
  obtain ⟨t'', hrun', ht''⟩ := hk t' ht'
  refine ⟨t'', ?_, ht''⟩
  rw [ExceptT.run_bind]
  show (StateT.bind x.run _) t = _
  rw [StateT.bind, hrun]
  exact hrun'

theorem Gives.throw_bind {e : String} (hx : Gives x f (.error e) f') :
    Gives (x >>= k) f (.error e) f' := by
  intro t ht
  obtain ⟨t', hrun, ht'⟩ := hx t ht
  refine ⟨t', ?_, ht'⟩
  rw [ExceptT.run_bind]
  show (StateT.bind x.run _) t = _
  rw [StateT.bind, hrun]
  rfl

theorem gives_pure (a : α) : Gives (pure a) f (.ok a) f := fun t ht => ⟨t, rfl, ht⟩

theorem gives_throw (e : String) : Gives (throw e : Task α) f (.error e) f :=
  fun t ht => ⟨t, rfl, ht⟩


theorem gives_get_bind {k : Transcript → Task β} {r : Except String β}
    (h : ∀ t, t.files = f → Gives (k t) f r f') : Gives (get >>= k) f r f' := by
  intro t ht
  obtain ⟨t', hrun, ht'⟩ := h t ht t ht
  exact ⟨t', hrun, ht'⟩

theorem gives_modify {g : Transcript → Transcript} (h : ∀ t, (g t).files = t.files) :
    Gives (modify g : Task Unit) f (.ok ()) f := fun t ht => ⟨g t, rfl, (h t).trans ht⟩

end Gives

/-! ## One input -/

variable {s : Setting} {o : DecompileOptions} {c : Config} {f f' : FileTree}

theorem gives_tell (m : Message) : Gives (tell m) f (.ok ()) f := gives_modify fun _ => rfl

theorem gives_tellUnlessQuiet (m : Message) : Gives (tellUnlessQuiet s m) f (.ok ()) f := by
  unfold tellUnlessQuiet
  split
  · exact gives_pure ()
  · exact gives_tell m

theorem gives_note (ns : List Notice) : Gives (note s ns) f (.ok ()) f := gives_modify fun _ => rfl

/-- What an input comes to. -/
def outcomeOf (s : Setting) (c : Config) (f : FileTree) (input : String) : Except String Outcome :=
  (inputText s f input).map (Outcome.ofText c)

theorem gives_decompileInput (input : String) :
    Gives (decompileInput s c input) f (.ok (input, outcomeOf s c f input)) f := by
  unfold decompileInput
  refine gives_get_bind fun t ht => ?_
  rw [ht, outcomeOf]
  cases inputText s f input with
  | ok text => exact (gives_note _).bind (gives_pure _)
  | error e => exact gives_pure _

theorem gives_mapM {inputs : List String} :
    Gives (inputs.mapM (decompileInput s c)) f
      (.ok (inputs.map fun i => (i, outcomeOf s c f i))) f := by
  induction inputs with
  | nil => exact gives_pure _
  | cons i inputs ih =>
    rw [List.mapM_cons]
    exact (gives_decompileInput i).bind (ih.bind (gives_pure _))

/-- What a write comes to. -/
theorem gives_putFile_ok {path text : String} (h : f.save path text = .ok f') :
    Gives (putFile path text) f (.ok ()) f' := by
  unfold putFile
  refine gives_get_bind fun t ht => ?_
  rw [ht, h]
  exact fun u _ => ⟨{ t with files := f' }, rfl, rfl⟩

theorem gives_putFile_error {path text : String} {e : FileTree.SaveFault}
    (h : f.save path text = .error e) :
    ∃ m, Gives (putFile path text) f (.error m) f := by
  cases e with
  | directory parent e =>
    refine ⟨"Failed to create " ++ parent ++ ": " ++ e.message, gives_get_bind fun t ht => ?_⟩
    rw [ht, h]
    exact gives_throw _
  | file e =>
    refine ⟨"Failed to write " ++ path ++ ": " ++ e.message, gives_get_bind fun t ht => ?_⟩
    rw [ht, h]
    exact gives_throw _

section Batch

variable {dir : String}

/-- The file for the outcome of an input. -/
def fileFor (o : DecompileOptions) (dir : String) (input : String) (outcome : Outcome) :
    String × String :=
  (inDirectory input dir o.format, o.format.render input outcome)

theorem deliver_eq (hbatch : o.isBatch) (hdir : o.output = some dir) (input : String)
    (outcome : Outcome) :
    deliver s o input outcome = get >>= fun _ =>
      putFile (fileFor o dir input outcome).1 (fileFor o dir input outcome).2 >>= fun _ =>
        tellUnlessQuiet s (.wrote (fileFor o dir input outcome).1) := by
  unfold deliver outputFile?
  rw [hdir, hbatch]
  rfl

theorem gives_deliver_ok (hbatch : o.isBatch)
    (hdir : o.output = some dir) {input : String} {outcome : Outcome}
    (h : f.save (fileFor o dir input outcome).1 (fileFor o dir input outcome).2 = .ok f') :
    Gives (deliver s o input outcome) f (.ok ()) f' := by
  rw [deliver_eq hbatch hdir]
  exact gives_get_bind fun _ _ => (gives_putFile_ok h).bind (gives_tellUnlessQuiet _)

theorem gives_deliver_error (hbatch : o.isBatch) (hdir : o.output = some dir)
    {input : String} {outcome : Outcome} {e : FileTree.SaveFault}
    (h : f.save (fileFor o dir input outcome).1 (fileFor o dir input outcome).2 = .error e) :
    ∃ m, Gives (deliver s o input outcome) f (.error m) f := by
  obtain ⟨m, hm⟩ := gives_putFile_error h
  refine ⟨m, ?_⟩
  rw [deliver_eq hbatch hdir]
  exact gives_get_bind fun _ _ => hm.throw_bind

/-- What is told about an outcome changes no files. -/
theorem Gives.report {input : String} {outcome : Outcome} {r : Except String Unit}
    (h : Gives (deliver s o input outcome) f r f') :
    Gives (report s o input (.ok outcome)) f r f' := by
  unfold CommandLine.report
  dsimp only
  split
  · exact (gives_tellUnlessQuiet _).bind ((gives_note _).bind h)
  · exact (gives_note _).bind h

/-- The files for what inputs came to: those that cannot be read have none. -/
def filesFor (o : DecompileOptions) (dir : String)
    (results : List (String × Except String Outcome)) :
    List (String × String) :=
  results.filterMap fun r => r.2.toOption.map (fileFor o dir r.1)

/-- Outcomes are written one after another, until one cannot be written. -/
theorem gives_reports (hbatch : o.isBatch) (hdir : o.output = some dir)
    (results : List (String × Except String Outcome)) :
    ∃ r, Gives (results.forM fun r => CommandLine.report s o r.1 r.2) f r
      (f.saveAll (filesFor o dir results)) := by
  induction results generalizing f with
  | nil => exact ⟨.ok (), gives_pure ()⟩
  | cons e results ih =>
    obtain ⟨input, result⟩ := e
    cases result with
    | error m =>
      obtain ⟨r, hr⟩ := ih (f := f)
      exact ⟨r, (gives_tell (.inputError m)).bind hr⟩
    | ok outcome =>
      show ∃ r, Gives _ f r (f.saveAll (fileFor o dir input outcome :: filesFor o dir results))
      rw [FileTree.saveAll]
      cases hsave : f.save (fileFor o dir input outcome).1 (fileFor o dir input outcome).2 with
      | ok f' =>
        obtain ⟨r, hr⟩ := ih (f := f')
        exact ⟨r, (gives_deliver_ok hbatch hdir hsave).report.bind hr⟩
      | error e =>
        obtain ⟨m, hm⟩ := gives_deliver_error (s := s) hbatch hdir hsave
        exact ⟨.error m, hm.report.throw_bind⟩

end Batch

/-! ## The command -/

/-- The settings that are given, if they can be read. -/
def settings? (s : Setting) (f : FileTree) : Option String → Option Config
  | none => some s.defaults
  | some path => (Config.load s.defaults f path).toOption

theorem gives_settings_some {path : Option String} (h : settings? s f path = some c) :
    Gives (settings s path) f (.ok c) f := by
  cases path with
  | none =>
    obtain rfl := Option.some.inj h
    exact gives_pure _
  | some path =>
    refine gives_get_bind fun t ht => ?_
    rw [ht]
    dsimp only [settings?] at h
    cases hload : Config.load s.defaults f path with
    | ok c' =>
      rw [hload] at h
      obtain rfl := Option.some.inj h
      exact (gives_note _).bind (gives_pure _)
    | error e =>
      rw [hload] at h
      cases h

/-- The settings that a decompilation works with, or `none` if it does not begin. -/
def DecompileOptions.config? (o : DecompileOptions) (s : Setting) (f : FileTree) : Option Config :=
  if (o.fault? f).isSome then none
  else ((settings? s f o.config).map o.adjust).filter fun c => c.fault?.isNone

/-- What is told in the end changes no files. -/
theorem gives_summary (failures fallbacks : Nat) (told lost : String) :
    ∃ r, Gives (do
      tellUnlessQuiet s (.decompiled (o.inputs.length - failures))
      if fallbacks > 0 then tellUnlessQuiet s (.warning told)
      if failures > 0 then throw lost) f r f := by
  have hlast : ∃ r, Gives (if failures > 0 then throw lost else pure () : Task Unit) f r f := by
    by_cases hfailures : failures > 0
    · rw [if_pos hfailures]
      exact ⟨_, gives_throw lost⟩
    · rw [if_neg hfailures]
      exact ⟨_, gives_pure ()⟩
  obtain ⟨r, hr⟩ := hlast
  refine ⟨r, (gives_tellUnlessQuiet _).bind ?_⟩
  by_cases hfallbacks : fallbacks > 0
  · rw [if_pos hfallbacks]
    exact (gives_tellUnlessQuiet _).bind hr
  · rw [if_neg hfallbacks]
    exact hr

/-- A decompilation of several inputs into a directory writes the files for those that can be read,
in order, until one cannot be written. -/
theorem gives_decompileCommand {dir : String} (hbatch : o.isBatch) (hdir : o.output = some dir)
    (h : o.config? s f = some c) :
    ∃ r, Gives (decompileCommand s o) f r
      (f.saveAll (filesFor o dir (o.inputs.map fun i => (i, outcomeOf s c f i)))) := by
  unfold DecompileOptions.config? at h
  cases hfault : o.fault? f with
  | some fault => simp [hfault] at h
  | none =>
    rw [hfault, if_neg (by simp)] at h
    obtain ⟨hc, hvalid⟩ := Option.filter_eq_some_iff.1 h
    obtain ⟨c', hsettings, rfl⟩ := Option.map_eq_some_iff.1 hc
    replace hvalid : (o.adjust c').fault? = none := by simpa using hvalid
    obtain ⟨r, hr⟩ := gives_reports (s := s) (f := f) hbatch hdir
      (o.inputs.map fun i => (i, outcomeOf s (o.adjust c') f i))
    suffices ∃ r, Gives _ f r _ by
      obtain ⟨r', hr'⟩ := this
      refine ⟨r', gives_get_bind fun t ht => ?_⟩
      rw [ht, hfault]
      refine (gives_settings_some hsettings).bind ?_
      dsimp only
      rw [hvalid]
      exact (gives_tellUnlessQuiet _).bind (gives_mapM.bind hr')
    cases r with
    | error e => exact ⟨_, hr.throw_bind⟩
    | ok _ =>
      obtain ⟨r', hr'⟩ := gives_summary (s := s) (o := o) _ _ _ _
      exact ⟨r', hr.bind hr'⟩

/-! ## Batches -/

/-- What a command carries with it in some surroundings. -/
def Surroundings.setting (w : Surroundings) (common : CommonOptions) : Setting where
  common
  stdin := w.stdin
  processors := w.processors
  colored := w.colored && !common.noColor

theorem files_runInvocation {i : Invocation} {w : Surroundings} {r : Except String Unit}
    (h : Gives (execute (w.setting i.common) i.command) w.files r f') :
    (runInvocation i w).files = f' := by
  obtain ⟨t, hrun, ht⟩ := h { files := w.files } rfl
  unfold Surroundings.setting at hrun
  unfold runInvocation
  dsimp only
  rw [hrun]
  cases r <;> exact ht

/-- The names and texts of the files for some inputs. -/
def outputsOf (s : Setting) (o : DecompileOptions) (c : Config) (f : FileTree)
    (inputs : List String) :
    List (List Char × String) :=
  inputs.filterMap fun i =>
    (inputText s f i).toOption.map fun text =>
      (outputName i o.format, o.format.render i (Outcome.ofText c text))

theorem files_batch {common : CommonOptions} {w : Surroundings} {dir : String} (hbatch : o.isBatch)
    (hdir : o.output = some dir) (h : o.config? (w.setting common) w.files = some c) :
    (runInvocation ⟨common, .decompile o⟩ w).files =
      w.files.saveAll
        (FileTree.filesIn dir (outputsOf (w.setting common) o c w.files o.inputs)) := by
  obtain ⟨r, hr⟩ := gives_decompileCommand hbatch hdir h
  rw [files_runInvocation (i := ⟨common, .decompile o⟩) (w := w) hr, filesFor, FileTree.filesIn,
    outputsOf, List.filterMap_map, List.map_filterMap]
  congr 1
  refine List.filterMap_congr fun i _ => ?_
  simp only [Function.comp_apply, outcomeOf]
  cases inputText (w.setting common) w.files i <;> rfl

theorem isEntryName_outputsOf {s : Setting} {f : FileTree} {inputs : List String} :
    ∀ e ∈ outputsOf s o c f inputs, Path.IsEntryName e.1 := by
  intro e he
  obtain ⟨i, -, h⟩ := List.mem_filterMap.1 he
  obtain ⟨text, -, rfl⟩ := Option.map_eq_some_iff.1 h
  exact isEntryName_outputName i o.format

/-- An input that can be read has a file in its place. -/
theorem outputsOf_append {s : Setting} {f : FileTree} {before after : List String} {x text : String}
    (h : inputText s f x = .ok text) :
    outputsOf s o c f (before ++ x :: after) =
      outputsOf s o c f before ++
        (outputName x o.format, o.format.render x (Outcome.ofText c text)) ::
        outputsOf s o c f after := by
  rw [outputsOf, List.filterMap_append, List.filterMap_cons_some (b := _) (by rw [h]; rfl)]
  rfl

theorem mem_outputsOf {s : Setting} {f : FileTree} {inputs : List String} {e : List Char × String}
    (h : e ∈ outputsOf s o c f inputs) :
    ∃ i ∈ inputs, (inputText s f i).isOk ∧ e.1 = outputName i o.format := by
  obtain ⟨i, hi, h⟩ := List.mem_filterMap.1 h
  obtain ⟨text, htext, rfl⟩ := Option.map_eq_some_iff.1 h
  refine ⟨i, hi, ?_, rfl⟩
  cases hin : inputText s f i with
  | ok _ => rfl
  | error e => rw [hin] at htext; cases htext

theorem exists_mem_outputsOf {s : Setting} {f : FileTree} {inputs : List String} {i : String}
    (hi : i ∈ inputs) (h : (inputText s f i).isOk) :
    ∃ e ∈ outputsOf s o c f inputs, e.1 = outputName i o.format := by
  cases hin : inputText s f i with
  | ok text =>
    refine ⟨(outputName i o.format, o.format.render i (Outcome.ofText c text)),
      List.mem_filterMap.2 ⟨i, hi, ?_⟩, rfl⟩
    rw [hin]
    rfl
  | error e => rw [hin] at h; cases h

section Outputs

variable {common : CommonOptions} {w : Surroundings} {dir : String} {before after : List String}
  {x text : String}

/-- If the outputs up to one can be written, it is there afterwards, unless a later one of the
same name replaces it. -/
theorem read_output (hbatch : o.isBatch) (hdir : o.output = some dir)
    (hconfig : o.config? (w.setting common) w.files = some c)
    (hinputs : o.inputs = before ++ x :: after)
    (hread : inputText (w.setting common) w.files x = .ok text)
    (hlast : ∀ y ∈ after, (inputText (w.setting common) w.files y).isOk → stemFor y ≠ stemFor x)
    (hbefore : ∀ y ∈ before, (inputText (w.setting common) w.files y).isOk →
      w.files.canSave (inDirectory y dir o.format))
    (hwrite : w.files.canSave (inDirectory x dir o.format)) :
    (runInvocation ⟨common, .decompile o⟩ w).files.read (inDirectory x dir o.format) =
      .ok (o.format.render x (Outcome.ofText c text)) := by
  have hsplit : outputsOf (w.setting common) o c w.files (before ++ x :: after) = _ :=
    outputsOf_append hread
  rw [files_batch hbatch hdir hconfig, hinputs, hsplit]
  refine FileTree.read_saveAll (hsplit ▸ isEntryName_outputsOf)
    (fun e he hname => ?_) fun e he => ?_
  · obtain ⟨y, hy, hok, hey⟩ := mem_outputsOf he
    exact hlast y hy hok (outputName_inj.1 (hey.symm.trans hname))
  · obtain he | he := List.mem_append.1 he
    · obtain ⟨y, hy, hok, hey⟩ := mem_outputsOf he
      rw [hey]
      exact hbefore y hy hok
    · rw [List.mem_singleton.1 he]
      exact hwrite

/-- The place of an output is left alone if one before it cannot be written. -/
theorem entry?_output (hbatch : o.isBatch) (hdir : o.output = some dir)
    (hconfig : o.config? (w.setting common) w.files = some c)
    (hinputs : o.inputs = before ++ x :: after)
    (hread : inputText (w.setting common) w.files x = .ok text)
    (hfirst : ∀ y ∈ before, (inputText (w.setting common) w.files y).isOk → stemFor y ≠ stemFor x)
    (hbefore : ∃ y ∈ before, (inputText (w.setting common) w.files y).isOk ∧
      ¬ w.files.canSave (inDirectory y dir o.format)) {contents : String} {t : FileTree}
    {p : Place} (hsave : w.files.save (inDirectory x dir o.format) contents = .ok t)
    (hplace : t.locate (inDirectory x dir o.format) = .ok p)
    (hwrite : w.files.canSave (inDirectory x dir o.format)) :
    (runInvocation ⟨common, .decompile o⟩ w).files.entry? p = w.files.entry? p := by
  have hsplit : outputsOf (w.setting common) o c w.files (before ++ x :: after) = _ :=
    outputsOf_append hread
  obtain ⟨t₁, π, ht₁, hπ, hfree⟩ :=
    FileTree.furnish_of_canSave (isEntryName_outputName x o.format) hwrite
  have hp := FileTree.locate_of_save ht₁ hπ (isEntryName_outputName x o.format) hsave
  rw [Except.ok.inj (hplace.symm.trans hp), files_batch hbatch hdir hconfig, hinputs, hsplit]
  refine FileTree.entry?_saveAll ht₁ hπ (hsplit ▸ isEntryName_outputsOf)
    (fun e he hname => ?_) hfree ?_
  · obtain ⟨y, hy, hok, hey⟩ := mem_outputsOf he
    exact hfirst y hy hok (outputName_inj.1 (hey.symm.trans hname))
  · obtain ⟨y, hy, hok, hno⟩ := hbefore
    obtain ⟨e, he, hey⟩ := exists_mem_outputsOf (o := o) (c := c) hy hok
    exact ⟨e, he, hey ▸ hno⟩

end Outputs

/-! ## Inputs with one stem -/

theorem nodup_map_congr {α β γ : Type} {g : α → β} {h : α → γ}
    (hgh : ∀ a b, g a = g b ↔ h a = h b) {l : List α} :
    (l.map g).Nodup ↔ (l.map h).Nodup := by
  rw [List.Nodup, List.Nodup, List.pairwise_map, List.pairwise_map]
  exact ⟨List.Pairwise.imp fun {a b} => (hgh a b).not.1, List.Pairwise.imp fun {a b} =>
    (hgh a b).not.2⟩

/-- **Outputs are apart just if stems are.** The outputs of a batch in a directory have different
paths, as texts and as paths, if and only if the stems of its inputs are different.  Then each input
that can be read has its output in place after the run, if all of these can be written. -/
theorem outputs_apart_iff_stems (o : DecompileOptions) (dir : String)
    (isDirectory : String → Bool) :
    ((o.inputs.map fun i => outputFile? i (some dir) o.format true isDirectory).Nodup ↔
      (o.inputs.map stemFor).Nodup) ∧
    ((o.inputs.map fun i => Path.components (inDirectory i dir o.format).toList).Nodup ↔
      (o.inputs.map stemFor).Nodup) ∧
    ((o.inputs.map stemFor).Nodup → o.isBatch → o.output = some dir →
      ∀ common w c, o.config? (w.setting common) w.files = some c →
        (∀ i ∈ o.inputs, (inputText (w.setting common) w.files i).isOk →
          w.files.canSave (inDirectory i dir o.format)) →
        ∀ i ∈ o.inputs, ∀ text, inputText (w.setting common) w.files i = .ok text →
          (runInvocation ⟨common, .decompile o⟩ w).files.read (inDirectory i dir o.format) =
            .ok (o.format.render i (Outcome.ofText c text))) := by
  refine ⟨nodup_map_congr fun i j => Option.some_inj.trans inDirectory_inj,
    nodup_map_congr fun i j => components_inDirectory_inj, ?_⟩
  intro hstems hbatch hdir common w c hconfig hwrite x hx text hread
  obtain ⟨before, after, hinputs⟩ := List.append_of_mem hx
  have hok : (inputText (w.setting common) w.files x).isOk := by rw [hread]; rfl
  refine read_output hbatch hdir hconfig hinputs hread (fun y hy _ hstem => ?_)
    (fun y hy => hwrite y (by rw [hinputs]; exact List.mem_append_left _ hy)) (hwrite x hx hok)
  rw [hinputs, List.map_append, List.map_cons, List.nodup_middle, List.nodup_cons,
    List.mem_append] at hstems
  exact hstems.1 (.inr (hstem ▸ List.mem_map_of_mem hy))

/-- Two inputs in directories of their own. -/
def nested : Surroundings where
  files := .ofList [
    ("a/coin.txt", .text "module 0x1.a \x7b\n\x7d\n"),
    ("b/coin.txt", .text "module 0x1.b \x7b\n\x7d\n"),
    ("b/pool.txt", .text "module 0x1.p \x7b\n\x7d\n")]

/-- Decompiles some of them into a directory. -/
def intoOut (inputs : List String) : DecompileOptions where
  inputs
  output := some "out"

/-- Different names in different directories. -/
theorem outputs_apart_nested :
    ((intoOut ["a/coin.txt", "b/pool.txt"]).inputs.map stemFor).Nodup ∧
      (runInvocation ⟨{}, .decompile (intoOut ["a/coin.txt", "b/pool.txt"])⟩ nested).files.read
        "out/coin.move" =
          .ok "// Decompiled from Move bytecode disassembly\nmodule a \x7b\n\x7d\n" := by
  obtain ⟨-, -, hleft⟩ :=
    outputs_apart_iff_stems (intoOut ["a/coin.txt", "b/pool.txt"]) "out" fun _ => false
  refine ⟨by decide +kernel,
    (hleft (by decide +kernel) rfl rfl {} nested { jobs := 1 } (by decide +kernel)
      (by decide +kernel) "a/coin.txt" (by decide +kernel) "module 0x1.a \x7b\n\x7d\n"
      rfl).trans (by decide +kernel)⟩

/-- One name in two directories: there is one output for both inputs, which can both be read. -/
theorem outputs_collide :
    let o := intoOut ["a/coin.txt", "b/coin.txt"]
    let files := (runInvocation ⟨{}, .decompile o⟩ nested).files
    2 ≤ o.inputs.length ∧ o.inputs.Nodup ∧ o.inputs.count stdinPath ≤ 1 ∧
      ¬ (o.inputs.map fun i => outputFile? i (some "out") o.format true fun _ => false).Nodup ∧
      files.read (inDirectory "a/coin.txt" "out" o.format) =
        .ok (o.format.render "b/coin.txt"
          (Outcome.ofText { jobs := 1 } "module 0x1.b \x7b\n\x7d\n")) := by
  decide +kernel

/-! ## Outputs that cannot be written -/

/-- **An output that cannot be written costs those behind it.** In a batch whose outputs have
different paths, an input that can be read, and whose output can be written, has its output in
place afterwards if the outputs of all readable inputs before it can be written, whichever
inputs cannot be read and whatever comes behind it.  If one of them cannot, the place of the
output is left as it was. -/
theorem outputs_until_unwritable (common : CommonOptions) (o : DecompileOptions) (w : Surroundings)
    {dir : String} {c : Config} (hbatch : o.isBatch) (hdir : o.output = some dir)
    (hpaths : (o.inputs.map fun i => inDirectory i dir o.format).Nodup)
    (hconfig : o.config? (w.setting common) w.files = some c) {before after : List String}
    {x text : String} (hinputs : o.inputs = before ++ x :: after)
    (hread : inputText (w.setting common) w.files x = .ok text)
    (hwrite : w.files.canSave (inDirectory x dir o.format)) :
    let files := (runInvocation ⟨common, .decompile o⟩ w).files
    ((∀ y ∈ before, (inputText (w.setting common) w.files y).isOk →
        w.files.canSave (inDirectory y dir o.format)) →
      files.read (inDirectory x dir o.format) = .ok (o.format.render x (Outcome.ofText c text))) ∧
    ((∃ y ∈ before, (inputText (w.setting common) w.files y).isOk ∧
        ¬ w.files.canSave (inDirectory y dir o.format)) →
      ∀ contents t p, w.files.save (inDirectory x dir o.format) contents = .ok t →
        t.locate (inDirectory x dir o.format) = .ok p → files.entry? p = w.files.entry? p) := by
  intro files
  rw [hinputs, List.map_append, List.map_cons, List.nodup_middle, List.nodup_cons,
    ← List.map_append] at hpaths
  have hother {y : String} (hy : y ∈ before ++ after) : stemFor y ≠ stemFor x := fun hstem =>
    hpaths.1 (inDirectory_inj.2 hstem ▸
      List.mem_map_of_mem (f := fun i => inDirectory i dir o.format) hy)
  refine ⟨fun hbefore => ?_, fun hbefore contents t p hsave hplace => ?_⟩
  · exact read_output hbatch hdir hconfig hinputs hread
      (fun y hy _ => hother (List.mem_append_right _ hy)) hbefore hwrite
  · exact entry?_output hbatch hdir hconfig hinputs hread
      (fun y hy _ => hother (List.mem_append_left _ hy)) hbefore hsave hplace hwrite

/-- Inputs, and a directory where the output of the first should go. -/
def crowded : Surroundings where
  files := .ofList [
    ("a.txt", .text "module 0x1.a \x7b\n\x7d\n"),
    ("b.txt", .text "module 0x1.b \x7b\n\x7d\n"),
    ("c.txt", .text "module 0x1.c \x7b\n\x7d\n"),
    ("out/a.move", .directory)]

/-- Behind the output that cannot be written nothing is written, and before it everything. -/
theorem outputs_until_unwritable_crowded :
    let files := (runInvocation
      ⟨{}, .decompile (intoOut ["gone.txt", "b.txt", "a.txt", "c.txt"])⟩ crowded).files
    files.read "out/b.move" =
        .ok "// Decompiled from Move bytecode disassembly\nmodule b \x7b\n\x7d\n" ∧
      files.entry? ["out", "c.move"] = none := by
  intro files
  have hconfig : (intoOut ["gone.txt", "b.txt", "a.txt", "c.txt"]).config?
      (crowded.setting {}) crowded.files = some { jobs := 1 } := by
    decide +kernel
  have hpaths :
      (["gone.txt", "b.txt", "a.txt", "c.txt"].map fun i => inDirectory i "out" .text).Nodup := by
    decide +kernel
  have hwritten :=
    (outputs_until_unwritable {} (intoOut ["gone.txt", "b.txt", "a.txt", "c.txt"])
      crowded rfl rfl hpaths
    hconfig (show _ = ["gone.txt"] ++ "b.txt" :: _ from rfl) rfl (by decide +kernel)).1
  have hleft :=
    (outputs_until_unwritable {} (intoOut ["gone.txt", "b.txt", "a.txt", "c.txt"])
      crowded rfl rfl hpaths
    hconfig (show _ = ["gone.txt", "b.txt", "a.txt"] ++ "c.txt" :: _ from rfl) rfl
    (by decide +kernel)).2
  refine ⟨(hwritten (by decide +kernel)).trans (by decide +kernel), ?_⟩
  refine (hleft ⟨"a.txt", by decide +kernel, by decide +kernel, by decide +kernel⟩ ""
    (crowded.files.put ["out", "c.move"] (.text "")) ["out", "c.move"] rfl ?_).trans ?_
  · decide +kernel
  · decide +kernel

/-- An input can be read and its output can be written, but it is lost. -/
theorem output_lost :
    let o := intoOut ["a.txt", "b.txt"]
    let files := (runInvocation ⟨{}, .decompile o⟩ crowded).files
    o.isBatch ∧ (o.inputs.map fun i => inDirectory i "out" o.format).Nodup ∧
      (∀ i ∈ o.inputs, inDirectory i "out" o.format ∉ o.inputs) ∧
      o.config? (crowded.setting {}) crowded.files = some { jobs := 1 } ∧
      inputText (crowded.setting {}) crowded.files "b.txt" = .ok "module 0x1.b \x7b\n\x7d\n" ∧
      crowded.files.canSave (inDirectory "b.txt" "out" o.format) ∧
      files.read (inDirectory "b.txt" "out" o.format) = .error .notFound := by
  decide +kernel

end CommandLine

end PseudoMove
