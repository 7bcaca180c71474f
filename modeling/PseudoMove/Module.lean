import PseudoMove.Text.Blank
/-!
# Modules

What a listing declares and what pseudo-source is written from. A function occurs in two forms with the
same header: as a block of the listing with its body lines, and as a pseudo-function with statements.
-/

namespace PseudoMove

open Text

/-- An ability of a struct type. -/
inductive Ability where
  | copy | drop | store | key
deriving DecidableEq, Repr

namespace Ability

/-- All abilities. -/
def all : List Ability := [.copy, .drop, .store, .key]

/-- The ability's name. -/
def name : Ability → String
  | .copy => "copy" | .drop => "drop" | .store => "store" | .key => "key"

/-- The ability a word names, blanks around it aside. -/
def ofWord? (word : List Char) : Option Ability :=
  all.find? fun a => a.name = String.ofList (trim word)

/-- One more ability at the end of a list, unless the list has it. -/
def add (as : List Ability) (a : Ability) : List Ability := if a ∈ as then as else as ++ [a]

/-- The abilities that some words name, in order and without repetition. -/
def ofWords (words : List (List Char)) : List Ability := (words.filterMap ofWord?).foldl add []

end Ability

/-- A field of a struct. -/
structure Field where
  name : String
  fieldType : String
deriving DecidableEq, Repr

/-- A struct declaration. -/
structure StructDecl where
  name : String
  typeParameters : List String := []
  abilities : List Ability := []
  fields : List Field := []
deriving DecidableEq, Repr

/-- Who may call a function. -/
inductive Visibility where
  | publicOnly | publicEntry | entryOnly | friendOnly | privateOnly
deriving DecidableEq, Repr

namespace Visibility

/-- The visibility that the modifiers of a header add up to. Friend outweighs the others. -/
def ofModifiers (words : List String) : Visibility :=
  if words.any fun w => w = "friend" ∨ w = "public(friend)" ∨ w = "public(package)" then .friendOnly
  else
    match words.contains "public", words.contains "entry" with
    | true, true => .publicEntry
    | true, false => .publicOnly
    | false, true => .entryOnly
    | false, false => .privateOnly

/-- What stands before `fun` in source. -/
def keyword : Visibility → String
  | .publicOnly => "public "
  | .publicEntry => "public entry "
  | .entryOnly => "entry "
  | .friendOnly => "public(friend) "
  | .privateOnly => ""

/-- The visibility's name in reports. -/
def name : Visibility → String
  | .publicOnly => "public"
  | .publicEntry => "public-entry"
  | .entryOnly => "entry"
  | .friendOnly => "friend"
  | .privateOnly => "private"

/-- All visibilities. -/
def all : List Visibility := [.publicOnly, .publicEntry, .entryOnly, .friendOnly, .privateOnly]

end Visibility

/-- A parameter of a function. -/
structure Parameter where
  name : String
  paramType : String
deriving DecidableEq, Repr

/-- The header of a function. An empty return type is unit. -/
structure FunctionHeader where
  visibility : Visibility := .privateOnly
  name : String
  typeParameters : List String := []
  parameters : List Parameter := []
  returnType : String := ""
deriving DecidableEq, Repr

/-- Whether the return type is written as unit: left out, or as an empty pair of parentheses. -/
def FunctionHeader.returnsUnit (h : FunctionHeader) : Bool :=
  let ret := trimmed h.returnType
  ret = "" || ret = "()"

/-- A function of a listing: its header and the lines of its body. -/
structure FunctionListing extends FunctionHeader where
  bodyLines : List String := []
deriving DecidableEq, Repr

/-- A function of pseudo-source: its header and its statements. -/
structure PseudoFunction extends FunctionHeader where
  statements : List String := []
deriving DecidableEq, Repr

/-- A use declaration. -/
structure UseDecl where
  path : String
deriving DecidableEq, Repr

/-- A constant. -/
structure ConstDecl where
  name : String
  constType : String
  value : String
deriving DecidableEq, Repr

/-- A module of pseudo-source. -/
structure PseudoModule where
  name : String
  uses : List UseDecl := []
  constants : List ConstDecl := []
  structs : List StructDecl := []
  functions : List PseudoFunction := []
deriving DecidableEq, Repr

namespace PseudoModule

/-- The first function of a given name. -/
def function? (m : PseudoModule) (name : String) : Option PseudoFunction :=
  m.functions.find? fun f => f.name = name

/-- How many statements the functions have together. -/
def statementCount (m : PseudoModule) : Nat :=
  m.functions.foldl (fun n f => n + f.statements.length) 0

/-- How many fields the structs have together. -/
def fieldCount (m : PseudoModule) : Nat := m.structs.foldl (fun n s => n + s.fields.length) 0

end PseudoModule

end PseudoMove
