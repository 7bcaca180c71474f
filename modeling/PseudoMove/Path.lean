import PseudoMove.Text.Search
/-!
# Paths

File paths as text, with `/` between their components. Empty components and `.` count for nothing,
except that a relative path may begin with `.`.
-/

namespace PseudoMove.Path

open PseudoMove.Text

/-- What a component of a path is when it is not just a name. -/
inductive Component where
  | root
  | here
  | up
  | name (n : List Char)
deriving DecidableEq, Repr

/-- Whether a piece between two separators counts for something. -/
def isSignificant (piece : List Char) : Bool := piece ≠ [] && piece ≠ ['.']

/-- A piece that counts, as a component. -/
def ofPiece (piece : List Char) : Component := if piece = ['.', '.'] then .up else .name piece

/-- The components of a path. -/
def components (path : List Char) : List Component :=
  match path.splitOn '/' with
  | [] => []
  | first :: rest =>
    let start :=
      if first = [] then (if rest = [] then [] else [Component.root])
      else if first = ['.'] then [.here]
      else [ofPiece first]
    start ++ (rest.filter isSignificant).map ofPiece

/-- The last component of a path, if it is a name. -/
def fileName? (path : List Char) : Option (List Char) :=
  match (components path).getLast? with
  | some (.name n) => some n
  | _ => none

/-- A file name as the part before its last dot and the part after it. A name without a dot, or with
its only dot in front, has no second part. -/
def splitName (name : List Char) : List Char × Option (List Char) :=
  let r := name.reverse
  match r.dropWhile (· ≠ '.') with
  | [] => (name, none)
  | _ :: before =>
    if before = [] then (name, none) else (before.reverse, some (r.takeWhile (· ≠ '.')).reverse)

/-- The file name of a path without its ending. -/
def stem? (path : List Char) : Option (List Char) := (fileName? path).map fun n => (splitName n).1

/-- The ending of the file name of a path. -/
def extension? (path : List Char) : Option (List Char) := (fileName? path).bind fun n => (splitName n).2

/-- The pieces of a path without those at its end that count for nothing; the first piece stays. -/
def dropVoid : List (List Char) → List (List Char)
  | [] => []
  | first :: rest => first :: dropEndWhile rest
where
  /-- The pieces up to the last that counts. -/
  dropEndWhile (rest : List (List Char)) : List (List Char) :=
    (rest.reverse.dropWhile fun p => !isSignificant p).reverse

/-- Pieces as a path; the single piece in front of the root separator is the root. -/
def ofPieces (pieces : List (List Char)) : List Char :=
  if pieces = [[]] then ['/'] else ['/'].intercalate pieces

/-- The path without its last component. The root has none, nor has the empty path. -/
def parent? (path : List Char) : Option (List Char) :=
  match dropVoid (path.splitOn '/') with
  | [] => none
  | [first] => if first = [] then none else some []
  | pieces => some (ofPieces (dropVoid pieces.dropLast))

/-- A relative path seen from a directory. -/
def join (directory path : List Char) : List Char :=
  if directory = [] ∨ directory.getLast? = some '/' then directory ++ path
  else directory ++ '/' :: path

end PseudoMove.Path
