import Mathlib.Data.List.Forall2
import PseudoMove.Proofs.OutputNames

/-!
# Writing files into a directory

What one write does to a tree, and what many writes into one directory do.

* `entry?_put` — a tree after a change at one place;
* `Furnishes` — a tree that has more directories and is otherwise the same; paths lead in
  it where they led before;
* `Opens` — a path leads to a directory.  `makeDirectories_ok` says that it does after the directory
  is made, and `makeDirectories_of_opens` that nothing is made where there is one;
* `read_of_save` — at any path, what is saved can be read;
* `save_furnished` — a file is written into a directory that is made for it, unless a directory has
  its name;
* `saveAll` — writing files until one cannot be written, with `read_saveAll` and `entry?_saveAll`:
  which of the files are there afterwards, and which are as before.
-/

namespace PseudoMove

open PseudoMove.Path (IsEntryName join container leading)

namespace FileTree

/-! ## One change -/

theorem entry?_of_isFixed {t : FileTree} {p : Place} (h : isFixed p) :
    t.entry? p = some .directory :=
  if_pos h

/-- The entries after one is put at a place that is not a directory of its own accord. -/
theorem entry?_put {t : FileTree} {p : Place} (hp : isFixed p = false) (e : Entry) (q : Place) :
    entry? (t.put p e) q = if q = p then some e else t.entry? q := by
  unfold entry? put
  by_cases hqp : q = p
  · rw [hqp, hp, if_neg Bool.false_ne_true, if_pos rfl, List.lookup_cons_self]
  · have hlookup : (q == p) = false := by simpa using hqp
    rw [if_neg hqp, List.lookup_cons, hlookup, lookup_filter_ne hqp]

theorem isFixed_of_ne_directory {t : FileTree} {p : Place} (h : t.entry? p ≠ some .directory) :
    isFixed p = false := by
  by_contra hp
  exact h (entry?_of_isFixed (by simpa using hp))

/-! ## More directories -/

/-- Every directory of `t` is one of `t'`. -/
def Keeps (t t' : FileTree) : Prop :=
  ∀ p, t.entry? p = some .directory → t'.entry? p = some .directory

/-- `t'` has the entries of `t`, and perhaps directories where `t` has nothing. -/
def Furnishes (t t' : FileTree) : Prop :=
  ∀ p, t'.entry? p = t.entry? p ∨ t.entry? p = none ∧ t'.entry? p = some .directory

theorem Furnishes.refl (t : FileTree) : t.Furnishes t := fun _ => .inl rfl

theorem Furnishes.trans {t u v : FileTree} (h : t.Furnishes u) (k : u.Furnishes v) :
    t.Furnishes v := by
  intro p
  obtain hv | ⟨hu, hv⟩ := k p
  · rw [hv]
    exact h p
  · obtain ht | ⟨-, ht⟩ := h p
    · exact .inr ⟨ht ▸ hu, hv⟩
    · rw [hu] at ht
      cases ht

theorem Furnishes.keeps {t t' : FileTree} (h : t.Furnishes t') : t.Keeps t' := by
  intro p hp
  obtain ht | ⟨ht, -⟩ := h p
  · rw [ht, hp]
  · rw [ht] at hp
    cases hp

theorem furnishes_put {t : FileTree} {p : Place} (h : t.entry? p = none) :
    t.Furnishes (t.put p .directory) := by
  intro q
  rw [entry?_put (isFixed_of_ne_directory (by rw [h]; simp))]
  split
  · next hq => exact .inr ⟨hq ▸ h, rfl⟩
  · exact .inl rfl

theorem keeps_put {t : FileTree} {p : Place} (h : t.entry? p ≠ some .directory) (e : Entry) :
    t.Keeps (t.put p e) := by
  intro q hq
  have hqp : q ≠ p := fun e => h (e ▸ hq)
  rw [entry?_put (isFixed_of_ne_directory h), if_neg hqp, hq]

/-! ## Following a path -/

theorem follow_append (t : FileTree) (p : Place) (xs ys : List (List Char)) :
    t.follow p (xs ++ ys) = (t.follow p xs).bind fun q => t.follow q ys := by
  induction xs generalizing p with
  | nil => rfl
  | cons x xs ih =>
    rw [List.cons_append, follow, follow]
    split
    · rfl
    · exact ih (next p x)
    · rfl

/-- What leads somewhere leads there also when there are more directories. -/
theorem Keeps.follow {t t' : FileTree} (h : t.Keeps t') {p q : Place} {pieces : List (List Char)}
    (hq : t.follow p pieces = .ok q) : t'.follow p pieces = .ok q := by
  induction pieces generalizing p with
  | nil => exact hq
  | cons x xs ih =>
    rw [FileTree.follow] at hq ⊢
    split at hq
    · cases hq
    · next hp => rw [h p hp]; exact ih hq
    · cases hq

/-- The path leads to a directory at the place `π`. -/
def Opens (t : FileTree) (path : String) (π : Place) : Prop :=
  t.follow (parse path).1 (parse path).2.1 = .ok π ∧ t.entry? π = some .directory

theorem Keeps.opens {t t' : FileTree} (h : t.Keeps t') {path : String} {π : Place}
    (hπ : t.Opens path π) :
    t'.Opens path π :=
  ⟨h.follow hπ.1, h π hπ.2⟩

theorem locate_of_ne {t : FileTree} {path : String} (h : path ≠ "") :
    t.locate path = t.follow (parse path).1 (parse path).2.1 := if_neg h

theorem find_of_locate {t : FileTree} {path : String} {p : Place} (h : t.locate path = .ok p) :
    t.find path = match t.entry? p with
      | none => .error .notFound
      | some e => if (parse path).2.2 ∧ e ≠ .directory then .error .notADirectory else .ok e := by
  unfold find
  rw [h]
  rfl

theorem isDirectory_of_error {t : FileTree} {path : String} {e : FileFault}
    (h : t.locate path = .error e) :
    t.isDirectory path = false := by
  have hfind : t.find path = .error e := by unfold find; rw [h]; rfl
  simp [isDirectory, hfind, Except.toOption]

/-- A path leads to a directory just if it opens a place and is not empty. -/
theorem isDirectory_iff {t : FileTree} {path : String} :
    t.isDirectory path ↔ path ≠ "" ∧ ∃ π, t.Opens path π := by
  by_cases hpath : path = ""
  · rw [isDirectory_of_error (if_pos hpath)]
    simp [hpath]
  · simp only [Opens, ← locate_of_ne (t := t) hpath]
    cases hloc : t.locate path with
    | error e => simp [isDirectory_of_error hloc]
    | ok p =>
      unfold isDirectory
      rw [find_of_locate hloc]
      cases hentry : t.entry? p with
      | none => simp [hentry, Except.toOption]
      | some e =>
        by_cases he : e = .directory
        · simp [he, hentry, hpath, Except.toOption]
        · by_cases hslash : (parse path).2.2 <;> simp [he, hslash, hentry, Except.toOption]

/-! ## Making directories -/

theorem makeDirectory_of_opens {t : FileTree} {path : String} (hpath : path ≠ "") {π : Place}
    (h : t.Opens path π) :
    t.makeDirectory path = .error .alreadyExists := by
  unfold makeDirectory
  rw [locate_of_ne hpath, h.1]
  dsimp only [bind, Except.bind]
  rw [h.2]

theorem ensureDirectory_of_opens {t : FileTree} {path : String} (hpath : path ≠ "") {π : Place}
    (h : t.Opens path π) :
    t.ensureDirectory path = .ok t := by
  unfold ensureDirectory
  rw [makeDirectory_of_opens hpath h]
  exact if_pos (isDirectory_iff.2 ⟨hpath, π, h⟩)

/-- Where there is a directory, none is made. -/
theorem makeDirectories_of_opens {t : FileTree} {path : String} (hpath : path ≠ "") {π : Place}
    (h : t.Opens path π) :
    t.makeDirectories path = .ok t := by
  unfold makeDirectories
  cases path.length with
  | zero => exact ensureDirectory_of_opens hpath h
  | succ n =>
    rw [makeDirectoriesIn, if_neg hpath]
    simp only [ensureDirectory_of_opens hpath h]

/-- What is changed when one directory is made. -/
theorem makeDirectory_ok {t t' : FileTree} {path : String} (h : t.makeDirectory path = .ok t') :
    ∃ p, t.locate path = .ok p ∧ t.entry? p = none ∧ t' = t.put p .directory := by
  unfold makeDirectory at h
  cases hloc : t.locate path with
  | error e => rw [hloc] at h; cases h
  | ok p =>
    rw [hloc] at h
    dsimp only [bind, Except.bind] at h
    split at h
    · cases h
    · next hfree => exact ⟨p, rfl, hfree, (Except.ok.inj h).symm⟩

/-- After one directory is made there is one, and nothing else has changed. -/
theorem ensureDirectory_ok {t t' : FileTree} {path : String} (h : t.ensureDirectory path = .ok t') :
    t.Furnishes t' ∧ ∃ π, t'.Opens path π := by
  unfold ensureDirectory at h
  split at h
  · next u hmake =>
    obtain rfl := Except.ok.inj h
    obtain ⟨p, hloc, hfree, rfl⟩ := makeDirectory_ok hmake
    have hpath : path ≠ "" := fun e => by rw [e] at hloc; cases hloc
    have hfurnishes := furnishes_put hfree
    refine ⟨hfurnishes, p, hfurnishes.keeps.follow (locate_of_ne hpath ▸ hloc), ?_⟩
    rw [entry?_put (isFixed_of_ne_directory (by rw [hfree]; simp)), if_pos rfl]
  · split at h
    · next hdir =>
      obtain rfl := Except.ok.inj h
      exact ⟨.refl t, (isDirectory_iff.1 hdir).2⟩
    · cases h

theorem makeDirectoriesIn_ok {t t' : FileTree} {n : Nat} {path : String}
    (h : t.makeDirectoriesIn n path = .ok t') :
    t.Furnishes t' ∧ (path ≠ "" → ∃ π, t'.Opens path π) := by
  induction n generalizing path t' with
  | zero =>
    obtain ⟨hfurnishes, hopens⟩ := ensureDirectory_ok h
    exact ⟨hfurnishes, fun _ => hopens⟩
  | succ n ih =>
    rw [makeDirectoriesIn] at h
    split at h
    · next hpath =>
      obtain rfl := Except.ok.inj h
      exact ⟨.refl t, fun hne => absurd hpath hne⟩
    · split at h
      · split at h
        · next parent _ =>
          -- the directories above come first
          cases habove : t.makeDirectoriesIn n (String.ofList parent) with
          | error e => rw [habove] at h; cases h
          | ok u =>
            rw [habove] at h
            obtain ⟨hfurnishes, hopens⟩ := ensureDirectory_ok h
            exact ⟨(ih habove).1.trans hfurnishes, fun _ => hopens⟩
        · cases h
      · obtain ⟨hfurnishes, hopens⟩ := ensureDirectory_ok h
        exact ⟨hfurnishes, fun _ => hopens⟩

/-- After a directory is made with those it lies in there is one, and nothing but
directories has come. -/
theorem makeDirectories_ok {t t' : FileTree} {path : String} (hpath : path ≠ "")
    (h : t.makeDirectories path = .ok t') :
    t.Furnishes t' ∧ ∃ π, t'.Opens path π := by
  obtain ⟨hfurnishes, hopens⟩ := makeDirectoriesIn_ok h
  exact ⟨hfurnishes, hopens hpath⟩

/-! ## The directory of a file -/

theorem parse_join (d : String) {n : List Char} (h : IsEntryName n) :
    parse (String.ofList (join d.toList n)) = ((parse d).1, (parse d).2.1 ++ [n], false) := by
  have hpieces : ((join d.toList n).splitOn '/').filter (· ≠ []) =
      (d.toList.splitOn '/').filter (· ≠ []) ++ [n] := by
    rw [Path.splitOn_join _ h.separator, List.filter_append, Path.filter_leading]
    simp [h.nonempty]
  have hlast : n.getLast? ≠ some '/' := fun e => h.separator (List.mem_of_getLast? e)
  have hhead : n.head? ≠ some '/' := fun e => h.separator (List.mem_of_head? e)
  simp only [parse, String.toList_ofList, hpieces]
  congr 1
  · unfold join
    cases hd : d.toList with
    | nil => simp [hhead]
    | cons c cs => split <;> simp
  · congr 1
    have : (join d.toList n).getLast? = n.getLast? := by
      unfold join
      split <;>
        simp [List.getLast?_append, List.getLast?_cons, List.getLast?_eq_some_getLast h.nonempty]
    simp [this, hlast]

theorem ofList_container_ne {d : String} (hd : d ≠ "") :
    String.ofList (container d.toList) ≠ "" := by
  intro h
  refine Path.container_ne_nil (d := d.toList) (by simpa using hd) ?_
  simpa using congrArg String.toList h

theorem parse_container {d : String} (hd : d ≠ "") :
    (parse (String.ofList (container d.toList))).1 = (parse d).1 ∧
    ∃ V : List (List Char), (∀ x ∈ V, x = ['.']) ∧
      (parse d).2.1 = (parse (String.ofList (container d.toList))).2.1 ++ V := by
  have hne : d.toList ≠ [] := by simpa using hd
  simp only [parse, String.toList_ofList, Path.head?_container hne, true_and]
  exact Path.filter_splitOn_container hne

/-- Going to where one is leads nowhere else. -/
theorem follow_here {t : FileTree} {p q : Place} {V : List (List Char)} (hV : ∀ x ∈ V, x = ['.'])
    (h : t.follow p V = .ok q) : q = p := by
  induction V with
  | nil => exact (Except.ok.inj h).symm
  | cons x V ih =>
    obtain rfl := hV x List.mem_cons_self
    rw [follow] at h
    split at h
    · cases h
    · exact ih (fun y hy => hV y (List.mem_cons_of_mem _ hy)) h
    · cases h

theorem follow_here_of_directory {t : FileTree} {p : Place} {V : List (List Char)}
    (hV : ∀ x ∈ V, x = ['.']) (h : t.entry? p = some .directory) : t.follow p V = .ok p := by
  induction V with
  | nil => rfl
  | cons x V ih =>
    obtain rfl := hV x List.mem_cons_self
    rw [follow, h]
    exact ih fun y hy => hV y (List.mem_cons_of_mem _ hy)

/-- The directory in which the files of `d` lie is `d`. -/
theorem opens_container {t : FileTree} {d : String} (hd : d ≠ "") {π : Place} :
    t.Opens (String.ofList (container d.toList)) π ↔ t.Opens d π := by
  obtain ⟨hstart, V, hV, hpieces⟩ := parse_container hd
  unfold Opens
  rw [hstart, hpieces, follow_append]
  refine and_congr_left fun hπ => ⟨fun h => ?_, fun h => ?_⟩
  · rw [h]
    exact follow_here_of_directory hV hπ
  · cases hq : t.follow (parse d).1 (parse (String.ofList (container d.toList))).2.1 with
    | error e => rw [hq] at h; cases h
    | ok q =>
      rw [hq] at h
      rw [follow_here hV h]

/-! ## Writing one file -/

theorem isFixed_concat (π : Place) {n : List Char} (h : IsEntryName n) :
    isFixed (π ++ [String.ofList n]) = false := by
  have hup : String.ofList n ≠ ".." := fun e => h.up (by simpa using congrArg String.toList e)
  have hroot : π ++ [String.ofList n] ≠ ["/"] := by
    intro e
    have hlast := congrArg List.getLast? e
    rw [List.getLast?_concat, List.getLast?_singleton, Option.some.injEq] at hlast
    exact h.separator (by rw [← String.toList_ofList (l := n), hlast]; decide)
  simp [isFixed, hup, hroot]

theorem locate_join {t : FileTree} {d : String} {π : Place} (hd : t.Opens d π) {n : List Char}
    (h : IsEntryName n) :
    t.locate (String.ofList (join d.toList n)) = .ok (π ++ [String.ofList n]) := by
  have hne : String.ofList (join d.toList n) ≠ "" := by
    intro e
    have hsplit := Path.splitOn_join d.toList h.separator
    rw [show join d.toList n = [] by simpa using congrArg String.toList e,
      List.splitOn_nil] at hsplit
    have hlast := congrArg List.getLast? hsplit
    rw [List.getLast?_concat, List.getLast?_singleton, Option.some.injEq] at hlast
    exact h.nonempty hlast.symm
  rw [locate_of_ne hne, parse_join d h]
  simp only [follow_append, hd.1]
  show t.follow π [n] = _
  rw [follow, hd.2]
  show Except.ok (next π n) = _
  rw [next, if_neg h.here, if_neg h.up]

/-- The text at the place of a file in a directory can be read. -/
theorem read_join {t : FileTree} {d : String} {π : Place}
    (hd : t.Opens d π) {n : List Char} (h : IsEntryName n)
    {text : String} (htext : t.entry? (π ++ [String.ofList n]) = some (.text text)) :
    t.read (String.ofList (join d.toList n)) = .ok text := by
  unfold read
  rw [find_of_locate (locate_join hd h), htext, parse_join d h]
  rfl

theorem write_join {t : FileTree} {d : String} {π : Place} (hd : t.Opens d π) {n : List Char}
    (h : IsEntryName n) (text : String) :
    t.write (String.ofList (join d.toList n)) text =
      if t.entry? (π ++ [String.ofList n]) = some .directory then .error .isADirectory
      else .ok (t.put (π ++ [String.ofList n]) (.text text)) := by
  unfold write
  rw [locate_join hd h, parse_join d h]
  dsimp only [bind, Except.bind]
  cases t.entry? (π ++ [String.ofList n]) with
  | none => simp
  | some e => cases e <;> simp

/-- A tree with a directory for files, if it can be made. -/
def furnish (t : FileTree) (d : String) : Except FileFault FileTree :=
  if d = "" then .ok t else t.makeDirectories (String.ofList (container d.toList))

/-- A file is written into a directory after the directory is made. -/
theorem save_join (t : FileTree) (d : String) {n : List Char} (h : IsEntryName n) (text : String) :
    t.save (String.ofList (join d.toList n)) text =
      match t.furnish d with
      | .ok t => (t.write (String.ofList (join d.toList n)) text).mapError .file
      | .error e => .error (.directory (String.ofList (container d.toList)) e) := by
  unfold save
  rw [String.toList_ofList, Path.parent?_join _ h]
  unfold furnish
  by_cases hd : d = ""
  · subst hd
    rfl
  · have hne : container d.toList ≠ [] := Path.container_ne_nil (by simpa using hd)
    rw [if_neg hd]
    split
    · next heq => cases heq
    · next heq => exact absurd (Option.some.inj heq) hne
    · next heq =>
      obtain rfl := Option.some.inj heq
      rfl

theorem furnish_of_opens {t : FileTree} {d : String} {π : Place} (h : t.Opens d π) :
    t.furnish d = .ok t := by
  unfold furnish
  split
  · rfl
  · next hd => exact makeDirectories_of_opens (ofList_container_ne hd) ((opens_container hd).2 h)

theorem furnish_ok {t t' : FileTree} {d : String} (h : t.furnish d = .ok t') :
    t.Furnishes t' ∧ ∃ π, t'.Opens d π := by
  unfold furnish at h
  split at h
  · next hd =>
    obtain rfl := Except.ok.inj h
    exact ⟨.refl t, [], hd ▸ ⟨rfl, rfl⟩⟩
  · next hd =>
    obtain ⟨hfurnishes, π, hπ⟩ := makeDirectories_ok (ofList_container_ne hd) h
    exact ⟨hfurnishes, π, (opens_container hd).1 hπ⟩

/-- A directory has the place of a file. -/
def Blocked (t : FileTree) (π : Place) (n : List Char) : Prop :=
  t.entry? (π ++ [String.ofList n]) = some .directory

instance (t : FileTree) (π : Place) (n : List Char) : Decidable (t.Blocked π n) :=
  inferInstanceAs (Decidable (_ = _))

/-- The tree with a file in a directory. -/
def putIn (t : FileTree) (π : Place) (n : List Char) (text : String) : FileTree :=
  t.put (π ++ [String.ofList n]) (.text text)

/-- A file is written into the directory that is made for it, unless a directory has its name. -/
theorem save_furnished {t t₁ : FileTree} {d : String} {π : Place} (ht : t.furnish d = .ok t₁)
    (hd : t₁.Opens d π) {n : List Char} (h : IsEntryName n) (text : String) :
    t.save (String.ofList (join d.toList n)) text =
      if t₁.Blocked π n then .error (.file .isADirectory) else .ok (t₁.putIn π n text) := by
  rw [save_join t d h, ht]
  show (t₁.write _ text).mapError SaveFault.file = _
  rw [write_join hd h]
  by_cases hblocked : t₁.Blocked π n
  · rw [if_pos hblocked, if_pos (show t₁.entry? _ = _ from hblocked)]
    rfl
  · rw [if_neg hblocked, if_neg (show ¬ t₁.entry? _ = _ from hblocked)]
    rfl

/-! ## Writing files -/

/-- Whether a file can be written at a path. -/
def canSave (t : FileTree) (path : String) : Bool := (t.save path "").toOption.isSome

/-- Writes files one after another, until one cannot be written. -/
def saveAll (t : FileTree) : List (String × String) → FileTree
  | [] => t
  | f :: fs =>
    match t.save f.1 f.2 with
    | .ok t => t.saveAll fs
    | .error _ => t

section AnyPath

variable {t t' : FileTree} {path text : String}

/-- Where a text is written there is no directory, and only there the tree changes. -/
theorem write_ok (h : t.write path text = .ok t') :
    ∃ p, t.locate path = .ok p ∧ t.entry? p ≠ some .directory ∧
      (parse path).2.2 = false ∧ t' = t.put p (.text text) := by
  unfold write at h
  cases hloc : t.locate path with
  | error e => rw [hloc] at h; cases h
  | ok p =>
    rw [hloc] at h
    dsimp only [bind, Except.bind] at h
    split at h
    · cases h
    · cases h
    · cases h
    · next hslash hdir => exact ⟨p, rfl, hdir, hslash, (Except.ok.inj h).symm⟩

/-- What is written can be read. -/
theorem read_of_write (h : t.write path text = .ok t') : t'.read path = .ok text := by
  obtain ⟨p, hloc, hdir, hslash, rfl⟩ := write_ok h
  have hpath : path ≠ "" := fun e => by rw [e] at hloc; cases hloc
  have hloc' : (t.put p (.text text)).locate path = .ok p := by
    rw [locate_of_ne hpath] at hloc ⊢
    exact (keeps_put hdir _).follow hloc
  unfold read
  rw [find_of_locate hloc', entry?_put (isFixed_of_ne_directory hdir), if_pos rfl, hslash]
  rfl

/-- Whether one can write at a path has nothing to do with the text. -/
theorem exists_write (h : t.write path text = .ok t') (text' : String) :
    ∃ t'', t.write path text' = .ok t'' := by
  obtain ⟨p, hloc, hdir, hslash, -⟩ := write_ok h
  refine ⟨t.put p (.text text'), ?_⟩
  unfold write
  rw [hloc, hslash]
  dsimp only [bind, Except.bind]
  split
  · next hentry => exact absurd hentry hdir
  · next hfalse => cases hfalse
  · next hfalse => cases hfalse
  · rfl

/-- A text is written after the directories for it are made, unless they cannot be. -/
theorem save_cases (t : FileTree) (path : String) :
    (∃ u : FileTree, ∀ text, t.save path text = (u.write path text).mapError .file) ∨
    ∃ e, ∀ text, t.save path text = .error e := by
  unfold save
  split
  · exact .inl ⟨t, fun _ => rfl⟩
  · exact .inl ⟨t, fun _ => rfl⟩
  · next parent _ _ =>
    dsimp only
    cases t.makeDirectories (String.ofList parent) with
    | ok u => exact .inl ⟨u, fun _ => rfl⟩
    | error e => exact .inr ⟨_, fun _ => rfl⟩

theorem mapError_eq_ok {ε ε' α : Type} {x : Except ε α} {f : ε → ε'} {a : α}
    (h : x.mapError f = .ok a) :
    x = .ok a := by
  cases x with
  | ok b => exact congrArg Except.ok (Except.ok.inj h)
  | error e => cases h

/-- **A file that is saved can be read.** -/
theorem read_of_save (h : t.save path text = .ok t') : t'.read path = .ok text := by
  rcases save_cases t path with ⟨u, hu⟩ | ⟨e, he⟩
  · exact read_of_write (mapError_eq_ok ((hu text).symm.trans h))
  · rw [he] at h
    cases h

theorem exists_save (h : t.canSave path) (text : String) : ∃ t', t.save path text = .ok t' := by
  unfold canSave at h
  rcases save_cases t path with ⟨u, hu⟩ | ⟨e, he⟩
  · cases hsave : t.save path "" with
    | error e => rw [hsave] at h; cases h
    | ok v =>
      obtain ⟨w, hw⟩ := exists_write (mapError_eq_ok ((hu "").symm.trans hsave)) text
      exact ⟨w, by rw [hu, hw]; rfl⟩
  · rw [he] at h
    cases h

theorem has_of_read (h : t.read path = .ok text) : t.has path := by
  unfold read at h
  unfold has
  cases hfind : t.find path with
  | error e => rw [hfind] at h; cases h
  | ok e => rfl

end AnyPath

section Directory

variable {t t₁ : FileTree} {d : String} {π : Place}

theorem canSave_iff (ht : t.furnish d = .ok t₁) (hd : t₁.Opens d π) {n : List Char}
    (h : IsEntryName n) :
    t.canSave (String.ofList (join d.toList n)) ↔ ¬ t₁.Blocked π n := by
  unfold canSave
  rw [save_furnished ht hd h]
  split <;> simp [Except.toOption, *]

/-- What can be written is written into a directory that is there then. -/
theorem furnish_of_canSave {n : List Char} (h : IsEntryName n)
    (ht : t.canSave (String.ofList (join d.toList n))) :
    ∃ t₁ π, t.furnish d = .ok t₁ ∧ t₁.Opens d π ∧ ¬ t₁.Blocked π n := by
  cases hfurnish : t.furnish d with
  | error e =>
    unfold canSave at ht
    rw [save_join t d h, hfurnish] at ht
    cases ht
  | ok t₁ =>
    obtain ⟨-, π, hπ⟩ := furnish_ok hfurnish
    exact ⟨t₁, π, rfl, hπ, (canSave_iff hfurnish hπ h).1 ht⟩

/-- Where a file is after it is written. -/
theorem locate_of_save {t' : FileTree} (ht : t.furnish d = .ok t₁)
    (hd : t₁.Opens d π) {n : List Char} (h : IsEntryName n) {text : String}
    (hsave : t.save (String.ofList (join d.toList n)) text = .ok t') :
    t'.locate (String.ofList (join d.toList n)) = .ok (π ++ [String.ofList n]) := by
  rw [save_furnished ht hd h] at hsave
  split at hsave
  · cases hsave
  · next hn =>
    obtain rfl := Except.ok.inj hsave
    exact locate_join ((keeps_put hn _).opens hd) h

theorem entry?_putIn {n m : List Char} (h : IsEntryName n) (text : String) :
    entry? (t.putIn π n text) (π ++ [String.ofList m]) =
      if m = n then some (.text text) else t.entry? (π ++ [String.ofList m]) := by
  rw [putIn, entry?_put (isFixed_concat π h)]
  simp [String.ofList_inj]

theorem blocked_putIn {n : List Char} (h : IsEntryName n) (hn : ¬ t.Blocked π n) (text : String)
    (m : List Char) :
    (t.putIn π n text).Blocked π m ↔ t.Blocked π m := by
  unfold Blocked
  rw [entry?_putIn h]
  split
  · next hm =>
    have hm' : t.entry? (π ++ [String.ofList m]) ≠ some .directory := hm ▸ hn
    simp [hm']
  · rfl

theorem opens_putIn (hd : t.Opens d π) {n : List Char} (hn : ¬ t.Blocked π n) (text : String) :
    (t.putIn π n text).Opens d π :=
  (keeps_put hn _).opens hd

/-- Files with their names, as they are written into a directory. -/
def filesIn (d : String) (outs : List (List Char × String)) : List (String × String) :=
  outs.map fun o => (String.ofList (join d.toList o.1), o.2)

/-- The files that are written are those before the first that cannot be. -/
theorem saveAll_of_opens (hd : t.Opens d π) {outs : List (List Char × String)}
    (hnames : ∀ o ∈ outs, IsEntryName o.1) :
    t.saveAll (filesIn d outs) =
      (outs.takeWhile fun o => ¬ t.Blocked π o.1).foldl (fun t o => t.putIn π o.1 o.2) t := by
  induction outs generalizing t with
  | nil => rfl
  | cons o outs ih =>
    have ho : IsEntryName o.1 := hnames o List.mem_cons_self
    rw [filesIn, List.map_cons, saveAll, save_furnished (furnish_of_opens hd) hd ho]
    by_cases hblocked : t.Blocked π o.1
    · rw [if_pos hblocked, List.takeWhile_cons_of_neg (by simpa using hblocked)]
      rfl
    · rw [if_neg hblocked, List.takeWhile_cons_of_pos (by simpa using hblocked), List.foldl_cons]
      have hrest :=
        ih (opens_putIn hd hblocked o.2) fun o' ho' => hnames o' (List.mem_cons_of_mem _ ho')
      simp only [blocked_putIn ho hblocked] at hrest
      exact hrest

theorem opens_saveAll (hd : t.Opens d π) {outs : List (List Char × String)}
    (hnames : ∀ o ∈ outs, IsEntryName o.1) :
    (t.saveAll (filesIn d outs)).Opens d π := by
  induction outs generalizing t with
  | nil => exact hd
  | cons o outs ih =>
    rw [filesIn, List.map_cons, saveAll,
      save_furnished (furnish_of_opens hd) hd (hnames o List.mem_cons_self)]
    by_cases hblocked : t.Blocked π o.1
    · rw [if_pos hblocked]
      exact hd
    · rw [if_neg hblocked]
      exact ih (opens_putIn hd hblocked o.2) fun o' ho' => hnames o' (List.mem_cons_of_mem _ ho')

theorem entry?_foldl_putIn_of_ne {n : List Char} {outs : List (List Char × String)}
    (hnames : ∀ o ∈ outs, IsEntryName o.1) (hne : ∀ o ∈ outs, o.1 ≠ n) :
    entry? (outs.foldl (fun t o => t.putIn π o.1 o.2) t) (π ++ [String.ofList n]) =
      t.entry? (π ++ [String.ofList n]) := by
  induction outs generalizing t with
  | nil => rfl
  | cons o outs ih =>
    rw [List.foldl_cons, ih (fun o' ho' => hnames o' (List.mem_cons_of_mem _ ho'))
      (fun o' ho' => hne o' (List.mem_cons_of_mem _ ho')),
      entry?_putIn (hnames o List.mem_cons_self), if_neg (hne o List.mem_cons_self).symm]

/-- If the first file can be written, the directory is made for all. -/
theorem saveAll_of_free (ht : t.furnish d = .ok t₁) (hd : t₁.Opens d π) {o : List Char × String}
    {outs : List (List Char × String)} (ho : IsEntryName o.1) (hfree : ¬ t₁.Blocked π o.1) :
    t.saveAll (filesIn d (o :: outs)) = t₁.saveAll (filesIn d (o :: outs)) := by
  rw [filesIn, List.map_cons, saveAll, saveAll, save_furnished ht hd ho,
    save_furnished (furnish_of_opens hd) hd ho, if_neg hfree]

theorem saveAll_of_blocked (ht : t.furnish d = .ok t₁) (hd : t₁.Opens d π) {o : List Char × String}
    {outs : List (List Char × String)} (ho : IsEntryName o.1) (hblocked : t₁.Blocked π o.1) :
    t.saveAll (filesIn d (o :: outs)) = t := by
  rw [filesIn, List.map_cons, saveAll, save_furnished ht hd ho, if_pos hblocked]

variable {before after : List (List Char × String)} {n : List Char} {text : String}

/-- A file is there afterwards if it and those before it can be written. -/
theorem read_saveAll (hnames : ∀ o ∈ before ++ (n, text) :: after, IsEntryName o.1)
    (hne : ∀ o ∈ after, o.1 ≠ n)
    (hsave : ∀ o ∈ before ++ [(n, text)], t.canSave (String.ofList (join d.toList o.1))) :
    (t.saveAll (filesIn d (before ++ (n, text) :: after))).read (String.ofList (join d.toList n)) =
      .ok text := by
  have hname {o} (ho : o ∈ before ++ [(n, text)]) : IsEntryName o.1 := hnames o (by
    obtain ho | ho := List.mem_append.1 ho
    · exact List.mem_append_left _ ho
    · exact List.mem_append_right _ (List.mem_cons.2 (.inl (List.mem_singleton.1 ho))))
  have hn : (n, text) ∈ before ++ [(n, text)] := List.mem_concat_self
  obtain ⟨t₁, π, ht, hd, -⟩ := furnish_of_canSave (hname hn) (hsave _ hn)
  have hfree : ∀ o ∈ before ++ [(n, text)], ¬ t₁.Blocked π o.1 := fun o ho =>
    (canSave_iff ht hd (hname ho)).1 (hsave o ho)
  have hall : t.saveAll (filesIn d (before ++ (n, text) :: after)) =
      t₁.saveAll (filesIn d (before ++ (n, text) :: after)) := by
    cases before with
    | nil => exact saveAll_of_free ht hd (hname hn) (hfree _ hn)
    | cons o before =>
      exact saveAll_of_free ht hd (hname List.mem_cons_self) (hfree o List.mem_cons_self)
  rw [hall]
  refine read_join (opens_saveAll hd hnames) (hname hn) ?_
  rw [saveAll_of_opens hd hnames, List.append_cons,
    List.takeWhile_append_of_pos (by simpa using hfree), List.foldl_append]
  have hafter : ∀ o ∈ after.takeWhile (fun o => ¬ t₁.Blocked π o.1), o ∈ after := fun o ho =>
    (List.takeWhile_sublist _).subset ho
  rw [entry?_foldl_putIn_of_ne
    (fun o ho => hnames o (List.mem_append_right _ (List.mem_cons_of_mem _ (hafter o ho))))
    (fun o ho => hne o (hafter o ho)), List.foldl_concat, entry?_putIn (hname hn), if_pos rfl]

/-- A file is not written after one that cannot be. -/
theorem entry?_saveAll (ht : t.furnish d = .ok t₁) (hd : t₁.Opens d π)
    (hnames : ∀ o ∈ before ++ (n, text) :: after, IsEntryName o.1) (hne : ∀ o ∈ before, o.1 ≠ n)
    (hn : ¬ t₁.Blocked π n)
    (hblocked : ∃ o ∈ before, ¬ t.canSave (String.ofList (join d.toList o.1))) :
    entry? (t.saveAll (filesIn d (before ++ (n, text) :: after))) (π ++ [String.ofList n]) =
      t.entry? (π ++ [String.ofList n]) := by
  obtain ⟨first, rest, hcons⟩ : ∃ first rest, before = first :: rest := by
    obtain ⟨o, ho, -⟩ := hblocked
    exact List.exists_cons_of_ne_nil (List.ne_nil_of_mem ho)
  have hfirst : IsEntryName first.1 := hnames first (by simp [hcons])
  by_cases hb : t₁.Blocked π first.1
  · rw [hcons, List.cons_append, saveAll_of_blocked ht hd hfirst hb]
  · have hall : t.saveAll (filesIn d (before ++ (n, text) :: after)) =
        t₁.saveAll (filesIn d (before ++ (n, text) :: after)) := by
      rw [hcons]
      exact saveAll_of_free ht hd hfirst hb
    -- of the files only some of those before it are written
    have htake : (before ++ (n, text) :: after).takeWhile (fun o => ¬ t₁.Blocked π o.1) =
        before.takeWhile fun o => ¬ t₁.Blocked π o.1 := by
      rw [List.takeWhile_append, if_neg]
      intro hlength
      obtain ⟨o, ho, hno⟩ := hblocked
      rw [canSave_iff ht hd (hnames o (List.mem_append_left _ ho))] at hno
      have hwhole :=
        (List.takeWhile_sublist (fun o : List Char × String => ¬ t₁.Blocked π o.1)).eq_of_length
          hlength
      have hfree := List.all_eq_true.1 List.all_takeWhile o (hwhole ▸ ho)
      exact hno (by simpa using hfree)
    rw [hall, saveAll_of_opens hd hnames, htake, entry?_foldl_putIn_of_ne]
    · obtain h | ⟨-, h⟩ := (furnish_ok ht).1 (π ++ [String.ofList n])
      · exact h
      · exact absurd h hn
    · exact fun o ho => hnames o (List.mem_append_left _ ((List.takeWhile_sublist _).subset ho))
    · exact fun o ho => hne o ((List.takeWhile_sublist _).subset ho)

end Directory

end FileTree

end PseudoMove
