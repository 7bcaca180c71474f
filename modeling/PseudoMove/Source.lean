import PseudoMove.Config
import PseudoMove.Module
import PseudoMove.Text.Phrase
/-!
# Pseudo-source

How a module is written. Its text is a list of lines with a level of indentation each. A module has
sections, namely its use declarations, its constants, each struct and each function, with a blank line
between two of them.
-/

namespace PseudoMove

open Text

/-- A line of pseudo-source. -/
inductive SourceLine where
  | blank
  | code (level : Nat) (text : String)
deriving DecidableEq, Repr

/-- The line as text, with `size` spaces for each level. -/
def SourceLine.render (size : Nat) : SourceLine → String
  | .blank => "\n"
  | .code level text => indentation level size ++ text ++ "\n"

namespace Source

/-- The first line, if it is wanted. -/
def headerComment : String := "// Decompiled from Move bytecode disassembly"

/-- The body of a function without statements. -/
def emptyBodyComment : String := "// no statements produced"

/-- Type parameters in angle brackets, or nothing. -/
def typeParameterList (params : List String) : String :=
  if params = [] then "" else "<" ++ ", ".intercalate params ++ ">"

/-- The header of a struct, without its brace. -/
def structHeader (d : StructDecl) : String :=
  "struct " ++ d.name ++ typeParameterList d.typeParameters ++
    if d.abilities = [] then "" else " has " ++ ", ".intercalate (d.abilities.map (·.name))

/-- A struct. One without fields takes one line. -/
def structLines (d : StructDecl) : List SourceLine :=
  if d.fields = [] then [.code 1 (structHeader d ++ " \x7b\x7d")]
  else
    .code 1 (structHeader d ++ " \x7b") ::
      d.fields.map (fun f => .code 2 (f.name ++ ": " ++ f.fieldType ++ ",")) ++ [.code 1 "\x7d"]

/-- The header of a function, without its brace. Unit is not written as a return type. -/
def functionHeader (h : FunctionHeader) : String :=
  h.visibility.keyword ++ "fun " ++ h.name ++ typeParameterList h.typeParameters ++ "(" ++
    ", ".intercalate (h.parameters.map fun p => p.name ++ ": " ++ p.paramType) ++ ")" ++
    if h.returnsUnit then "" else ": " ++ trimmed h.returnType

/-- A function. -/
def functionLines (f : PseudoFunction) : List SourceLine :=
  .code 1 (functionHeader f.toFunctionHeader ++ " \x7b") ::
    (if f.statements = [] then [.code 2 emptyBodyComment]
      else f.statements.map (.code 2 ·)) ++ [.code 1 "\x7d"]

/-- The sections of a module. -/
def sections (c : Config) (m : PseudoModule) : List (List SourceLine) :=
  (if c.renderUseDeclarations ∧ m.uses ≠ [] then
      [m.uses.map fun u => .code 1 ("use " ++ u.path ++ ";")] else []) ++
    (if m.constants ≠ [] then
      [m.constants.map fun k =>
        .code 1 ("const " ++ k.name ++ ": " ++ k.constType ++ " = " ++ k.value ++ ";")] else []) ++
    m.structs.map structLines ++ m.functions.map functionLines

/-- The lines of a module. -/
def moduleLines (c : Config) (m : PseudoModule) : List SourceLine :=
  (if c.emitHeaderComment then [.code 0 headerComment] else []) ++
    [.code 0 ("module " ++ m.name ++ " \x7b")] ++
    [SourceLine.blank].intercalate (sections c m) ++ [.code 0 "\x7d"]

/-- A module as text. -/
def render (c : Config) (m : PseudoModule) : String :=
  String.join ((moduleLines c m).map (SourceLine.render c.indentSize))

end Source

end PseudoMove
