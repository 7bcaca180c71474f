import PseudoMove.Path
/-!
# File trees

The files a command works on, as a value: a map from places to files and directories. A path is looked
up from the working directory, one piece after another, and every piece but the last has to lead to a
directory. What lies above the working directory or below the root is not part of a tree; of it, only
the directories on the way are known.
-/

namespace PseudoMove

/-- A file or a directory. A file that is not text in UTF-8 has no contents here. -/
inductive Entry where
  | text (contents : String)
  | binary
  | directory
deriving DecidableEq, Repr

/-- Why a file operation fails. -/
inductive FileFault where
  | notFound
  | alreadyExists
  | notADirectory
  | isADirectory
  | notText
deriving DecidableEq, Repr

/-- How the failure is told. -/
def FileFault.message : FileFault → String
  | .notFound => "No such file or directory (os error 2)"
  | .alreadyExists => "File exists (os error 17)"
  | .notADirectory => "Not a directory (os error 20)"
  | .isADirectory => "Is a directory (os error 21)"
  | .notText => "stream did not contain valid UTF-8"

/-- A place: the names that lead to it from the working directory. A place below the root begins with
`/`, one above the working directory with `..`. -/
abbrev Place := List String

/-- Places with their entries. -/
structure FileTree where
  entries : List (Place × Entry) := []
deriving Repr

namespace FileTree

/-- Whether a place is a directory of its own accord: the working directory, those above it and the
root. -/
def isFixed (p : Place) : Bool := p = ["/"] || p.all (· = "..")

/-- The entry at a place. -/
def entry? (t : FileTree) (p : Place) : Option Entry :=
  if isFixed p then some .directory else t.entries.lookup p

/-- Puts an entry at a place. -/
def put (t : FileTree) (p : Place) (e : Entry) : FileTree where
  entries := (p, e) :: t.entries.filter (·.1 ≠ p)

/-! ### Looking up paths -/

/-- The place one piece further. -/
def next (p : Place) (piece : List Char) : Place :=
  if piece = ['.'] then p
  else if piece = ['.', '.'] then
    if p = ["/"] then p
    else if p.all (· = "..") then p ++ [".."]
    else p.dropLast
  else p ++ [String.ofList piece]

/-- Follows pieces from a place. -/
def follow (t : FileTree) (p : Place) : List (List Char) → Except FileFault Place
  | [] => .ok p
  | piece :: rest =>
    match t.entry? p with
    | none => .error .notFound
    | some .directory => t.follow (next p piece) rest
    | some _ => .error .notADirectory

/-- A path as the place it starts from, its pieces, and whether it ends with a separator. -/
def parse (path : String) : Place × List (List Char) × Bool :=
  let cs := path.toList
  (if cs.head? = some '/' then ["/"] else [], (cs.splitOn '/').filter (· ≠ []),
    cs.getLast? = some '/')

/-- The place of a path, which may be free. The empty path leads nowhere. -/
def locate (t : FileTree) (path : String) : Except FileFault Place :=
  if path = "" then .error .notFound
  else
    let (start, pieces, _) := parse path
    t.follow start pieces

/-- The entry of a path. One that ends with a separator has to be a directory. -/
def find (t : FileTree) (path : String) : Except FileFault Entry := do
  match t.entry? (← t.locate path) with
  | none => .error .notFound
  | some e => if (parse path).2.2 ∧ e ≠ .directory then .error .notADirectory else .ok e

/-- Whether a path leads to something. -/
def has (t : FileTree) (path : String) : Bool := (t.find path).toOption.isSome

/-- Whether a path leads to a directory. -/
def isDirectory (t : FileTree) (path : String) : Bool := (t.find path).toOption = some .directory

/-- Whether a path leads to a file. -/
def isFile (t : FileTree) (path : String) : Bool :=
  (t.find path).toOption.any (· ≠ .directory)

/-! ### Reading and writing -/

/-- The text of a file. -/
def read (t : FileTree) (path : String) : Except FileFault String := do
  match ← t.find path with
  | .text contents => .ok contents
  | .binary => .error .notText
  | .directory => .error .isADirectory

/-- Makes a file with some text, or replaces one. -/
def write (t : FileTree) (path contents : String) : Except FileFault FileTree := do
  let p ← t.locate path
  match t.entry? p, (parse path).2.2 with
  | some .directory, _ | none, true => .error .isADirectory
  | some _, true => .error .notADirectory
  | _, false => .ok (t.put p (.text contents))

/-- Makes one directory. -/
def makeDirectory (t : FileTree) (path : String) : Except FileFault FileTree := do
  let p ← t.locate path
  match t.entry? p with
  | some _ => .error .alreadyExists
  | none => .ok (t.put p .directory)

/-- Makes a directory where there may be one already. -/
def ensureDirectory (t : FileTree) (path : String) : Except FileFault FileTree :=
  match t.makeDirectory path with
  | .ok t => .ok t
  | .error e => if t.isDirectory path then .ok t else .error e

/-- Makes a directory and those it lies in, as far as they are missing, in at most `steps` steps. -/
def makeDirectoriesIn (t : FileTree) : Nat → String → Except FileFault FileTree
  | 0, path => t.ensureDirectory path
  | n + 1, path =>
    if path = "" then .ok t
    else
      match t.ensureDirectory path with
      | .error .notFound => do
        match Path.parent? path.toList with
        | some parent => (← t.makeDirectoriesIn n (String.ofList parent)).ensureDirectory path
        | none => .error .notFound
      | r => r

/-- Makes a directory and those it lies in, as far as they are missing. -/
def makeDirectories (t : FileTree) (path : String) : Except FileFault FileTree :=
  t.makeDirectoriesIn path.length path

/-- Why a file cannot be put where it belongs: the directory for it cannot be made, or the file itself
cannot be written. -/
inductive SaveFault where
  | directory (path : String) (fault : FileFault)
  | file (fault : FileFault)
deriving DecidableEq, Repr

/-- Writes a file, with the directories it lies in. -/
def save (t : FileTree) (path contents : String) : Except SaveFault FileTree :=
  let write (t : FileTree) : Except SaveFault FileTree := (t.write path contents).mapError .file
  match Path.parent? path.toList with
  | none | some [] => write t
  | some parent =>
    let parent := String.ofList parent
    match t.makeDirectories parent with
    | .ok t => write t
    | .error e => .error (.directory parent e)

/-! ### Trees as a whole -/

/-- A tree with an entry at a path, and directories at the places on the way to it. -/
def withEntry (t : FileTree) (path : String) (e : Entry) : FileTree :=
  let (start, pieces, _) := parse path
  let names := pieces.map String.ofList
  let t := (List.range names.length).foldl
    (fun t i =>
      let p := start ++ names.take i
      if (t.entry? p).isSome then t else t.put p .directory) t
  t.put (start ++ names) e

/-- The tree of some paths with their entries. -/
def ofList (files : List (String × Entry)) : FileTree :=
  files.foldl (fun t f => t.withEntry f.1 f.2) {}

/-- A place as a path. -/
def pathOf : Place → String
  | "/" :: names => "/" ++ "/".intercalate names
  | names => "/".intercalate names

/-- The text files of a tree that another tree has not, or not with the same text. -/
def changesSince (t old : FileTree) : List (String × String) :=
  t.entries.filterMap fun (p, e) =>
    match e with
    | .text contents => if old.entry? p = some e then none else some (pathOf p, contents)
    | _ => none

end FileTree

end PseudoMove
