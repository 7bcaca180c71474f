import PseudoMove.Listing.Header
import PseudoMove.Notice
/-!
# Extraction

One pass over the lines of a listing carves out its declarations. Outside blocks each line is tried as
every kind of declaration; a struct or function header opens a block, which goes on until its braces
are balanced. A header inside a block ends that block: an unfinished function is kept, an unfinished
struct is not. No line is an error.

`readLine` says what one line does in a given scope, `Listing.read` runs it over a text.
-/

namespace PseudoMove

open Text

/-- A declaration found in a listing. -/
inductive Declaration where
  | moduleName (name : String)
  | useDecl (d : UseDecl)
  | constDecl (d : ConstDecl)
  | structDecl (d : StructDecl)
  | function (f : FunctionListing)
deriving DecidableEq, Repr

/-- Where in a listing a line stands: outside all blocks, or in a block with a brace depth, `opened`
telling whether its first brace has been seen. The body lines of a function are kept newest first. -/
inductive Scope where
  | outside
  | inStruct (decl : StructDecl) (depth : Int) (opened : Bool)
  | inFunction (block : FunctionListing) (body : List String) (depth : Int) (opened : Bool)
deriving DecidableEq, Repr

/-- What reading one line comes to: the scope after it, and what was found and told, in order. -/
structure Reading where
  scope : Scope
  found : List Declaration := []
  notices : List Notice := []

namespace Listing

/-- The opening braces of a line less the closing ones. -/
def braceBalance (line : List Char) : Int :=
  (line.count '{' : Int) - (line.count '}' : Int)

/-- Whether a block is complete. -/
def isClosed (depth : Int) (opened : Bool) : Bool := opened && depth ≤ 0

/-- A function block with its body. -/
def finished (block : FunctionListing) (body : List String) : FunctionListing :=
  { block with bodyLines := body.reverse }

/-- Whether a line begins as an instruction does, with a number and a colon. -/
def startsInstruction (line : List Char) : Bool :=
  match decimals? (trimStart line) with
  | some (_, ':' :: _) => true
  | _ => false

/-- Reads a line that begins a function. A function that ends with a semicolon or is native needs no
body. -/
def readFunctionLine (line : List Char) : Reading :=
  let t := trim line
  match functionHeader? line with
  | none => { scope := .outside, notices := [.signatureRejected (String.ofList t)] }
  | some block =>
    let opened := line.contains '{'
    let depth := braceBalance line
    let bodiless := t.getLast? = some ';' || (words t).contains "native".toList
    if isClosed depth opened || (!opened && bodiless) then
      { scope := .outside, found := [.function block] }
    else { scope := .inFunction block [] depth opened }

/-- Reads a line outside all blocks. -/
def readOutside (line : List Char) : Reading :=
  let t := trim line
  if t = [] ∨ "//".toList.isPrefixOf t then { scope := .outside }
  else
    match moduleName? line with
    | some name => { scope := .outside, found := [.moduleName name] }
    | none =>
      match useDecl? line with
      | some d => { scope := .outside, found := [.useDecl d] }
      | none =>
        match constDecl? line with
        | some d => { scope := .outside, found := [.constDecl d] }
        | none =>
          match structHeader? line with
          | some decl =>
            let opened := line.contains '{'
            let depth := braceBalance line
            if isClosed depth opened then { scope := .outside, found := [.structDecl decl] }
            else { scope := .inStruct decl depth opened }
          | none =>
            if (functionStart? line).isSome then readFunctionLine line else { scope := .outside }

/-- Reads a line in a struct. A line whose braces do not balance may hold a field beside them. -/
def readInStruct (decl : StructDecl) (depth : Int) (opened : Bool) (line : List Char) : Reading :=
  let balance := braceBalance line
  let braced := balance ≠ 0
  let text := if braced then line.map fun c => if c = '{' ∨ c = '}' then ' ' else c else line
  let decl :=
    match field? text with
    | some f => { decl with fields := decl.fields ++ [f] }
    | none => decl
  let opened := opened || (braced && line.contains '{')
  if braced && isClosed (depth + balance) opened then
    { scope := .outside, found := [.structDecl decl] }
  else { scope := .inStruct decl (depth + balance) opened }

/-- Reads a line in a function. A line that begins as an instruction belongs to the body whatever
braces it has; the brace that opens the block, alone on its line, does not. -/
def readInFunction (block : FunctionListing) (body : List String) (depth : Int) (opened : Bool)
    (line : List Char) : Reading :=
  if startsInstruction line then
    { scope := .inFunction block (String.ofList line :: body) depth opened }
  else
    let balance := braceBalance line
    let depth := depth + balance
    let opened := opened || line.contains '{'
    let t := trim line
    if isClosed depth opened then
      { scope := .outside, found := [.function (finished block body)] }
    else if t = [] ∨ (t = ['{'] ∧ 0 < balance) then
      { scope := .inFunction block body depth opened }
    else { scope := .inFunction block (String.ofList line :: body) depth opened }

/-- Reads a line: a header that opens a block ends the block before it. -/
def readLine (scope : Scope) (line : List Char) : Reading :=
  match scope with
  | .outside => readOutside line
  | .inStruct decl depth opened =>
    if opensBlock line then
      let r := readOutside line
      { r with notices := .structUnclosed decl.name :: r.notices }
    else readInStruct decl depth opened line
  | .inFunction block body depth opened =>
    if opensBlock line then
      let r := readOutside line
      { r with
        found := .function (finished block body) :: r.found
        notices := .functionUnclosed block.name :: r.notices }
    else readInFunction block body depth opened line

/-- What the end of the listing leaves of a scope. -/
def readEnd : Scope → Reading
  | .outside => { scope := .outside }
  | .inStruct decl _ _ => { scope := .outside, notices := [.structAtEnd decl.name] }
  | .inFunction block body _ _ =>
    { scope := .outside
      found := [.function (finished block body)]
      notices := [.functionAtEnd block.name] }

/-- The state of a pass: the scope, and all that was found and told so far, newest first. -/
structure Pass where
  scope : Scope := .outside
  found : List Declaration := []
  notices : List Notice := []

/-- Adds one reading to a pass. -/
def Pass.add (p : Pass) (r : Reading) : Pass where
  scope := r.scope
  found := r.found.reverse ++ p.found
  notices := r.notices.reverse ++ p.notices

/-- The pass over some lines, without the end of the listing. -/
def passOver (p : Pass) (ls : List (List Char)) : Pass :=
  ls.foldl (fun p l => p.add (readLine p.scope l)) p

/-- The pass over all lines and the end of the listing. -/
def pass (ls : List (List Char)) : Pass :=
  let p := passOver {} ls
  p.add (readEnd p.scope)

end Listing

/-- What a listing declares, each kind in the order of the text. -/
structure Listing where
  moduleName : Option String := none
  uses : List UseDecl := []
  constants : List ConstDecl := []
  structs : List StructDecl := []
  functions : List FunctionListing := []
deriving DecidableEq, Repr

namespace Listing

/-- Sorts declarations by kind. The first module name counts. -/
def ofDeclarations (ds : List Declaration) : Listing where
  moduleName := ds.findSome? fun
    | .moduleName name => some name
    | _ => none
  uses := ds.filterMap fun
    | .useDecl d => some d
    | _ => none
  constants := ds.filterMap fun
    | .constDecl d => some d
    | _ => none
  structs := ds.filterMap fun
    | .structDecl d => some d
    | _ => none
  functions := ds.filterMap fun
    | .function f => some f
    | _ => none

/-- The declarations of a text, in order. -/
def declarations (text : String) : List Declaration :=
  (pass (lines text.toList)).found.reverse

/-- Reads a listing. -/
def read (text : String) : Listing := .ofDeclarations (declarations text)

/-- What reading a listing tells, in order. -/
def readNotices (text : String) : List Notice := (pass (lines text.toList)).notices.reverse

end Listing

end PseudoMove
