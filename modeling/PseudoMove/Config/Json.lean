import PseudoMove.Config
import PseudoMove.Json.Value
import PseudoMove.Text.Word
/-!
# Settings in JSON

Settings are written as an object with every field. They are read from an object with some of the
fields, in any order and among others that do not matter, or from an array of the first fields in
order; fields that are not given keep their defaults. No field may be given twice.
-/

namespace PseudoMove

open Text

/-- The word that a JSON number denotes: its spelling has to be that of a whole number. -/
def Json.asWord? : Json → Option Nat
  | .number literal => readDigits? literal
  | _ => none

namespace Config

/-- The fields with their names, in order. -/
inductive Key where
  | indentSize | emitHeaderComment | emitBranchComments | keepTypeArguments
  | renderUseDeclarations | maxInstructionsPerFunction | jobs
deriving DecidableEq, Repr

namespace Key

/-- All fields. -/
def all : List Key :=
  [.indentSize, .emitHeaderComment, .emitBranchComments, .keepTypeArguments,
    .renderUseDeclarations, .maxInstructionsPerFunction, .jobs]

/-- The field's name. -/
def name : Key → String
  | .indentSize => "indent_size"
  | .emitHeaderComment => "emit_header_comment"
  | .emitBranchComments => "emit_branch_comments"
  | .keepTypeArguments => "keep_type_arguments"
  | .renderUseDeclarations => "render_use_declarations"
  | .maxInstructionsPerFunction => "max_instructions_per_function"
  | .jobs => "jobs"

/-- The field of a given name. -/
def ofName? (s : String) : Option Key := all.find? fun k => k.name = s

end Key

/-- The value of a field. -/
def get (c : Config) : Key → Json
  | .indentSize => .nat c.indentSize
  | .emitHeaderComment => .bool c.emitHeaderComment
  | .emitBranchComments => .bool c.emitBranchComments
  | .keepTypeArguments => .bool c.keepTypeArguments
  | .renderUseDeclarations => .bool c.renderUseDeclarations
  | .maxInstructionsPerFunction => .nat c.maxInstructionsPerFunction
  | .jobs => .nat c.jobs

/-- The settings with a new value of a field, if it is of the field's type. -/
def set? (c : Config) (k : Key) (v : Json) : Option Config :=
  match k with
  | .indentSize => v.asWord?.map fun n => { c with indentSize := n }
  | .emitHeaderComment => v.asBool?.map fun b => { c with emitHeaderComment := b }
  | .emitBranchComments => v.asBool?.map fun b => { c with emitBranchComments := b }
  | .keepTypeArguments => v.asBool?.map fun b => { c with keepTypeArguments := b }
  | .renderUseDeclarations => v.asBool?.map fun b => { c with renderUseDeclarations := b }
  | .maxInstructionsPerFunction =>
    v.asWord?.map fun n => { c with maxInstructionsPerFunction := n }
  | .jobs => v.asWord?.map fun n => { c with jobs := n }

/-- Settings as a record. -/
def toJson (c : Config) : Json := .object (Key.all.map fun k => (k.name, c.get k))

/-- The members of an object that are fields. -/
def givenFields (members : List (String × Json)) : List (Key × Json) :=
  members.filterMap fun m => (Key.ofName? m.1).map fun k => (k, m.2)

/-- The settings with new values of some fields. -/
def setAll? (c : Config) (given : List (Key × Json)) : Option Config :=
  given.foldlM (fun c g => c.set? g.1 g.2) c

/-- Reads settings over their defaults. -/
def ofJson? (defaults : Config) : Json → Option Config
  | .object members =>
    let given := givenFields members
    if (given.map (·.1)).Nodup then defaults.setAll? given else none
  | .array items =>
    if items.length ≤ Key.all.length then defaults.setAll? (Key.all.zip items) else none
  | _ => none

end Config

end PseudoMove
