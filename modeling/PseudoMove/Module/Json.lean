import PseudoMove.Json.Fields
import PseudoMove.Module
/-!
# Modules in JSON

Each kind of declaration as a record. Writing and reading use the same field names in the same order.
-/

namespace PseudoMove

open Json

namespace Field

/-- The fields of the record. -/
def fieldNames : List String := ["name", "field_type"]

/-- A struct field as a record. -/
def toJson (f : Field) : Json := .object [("name", .string f.name), ("field_type", .string f.fieldType)]

/-- Reads a struct field. -/
def ofJson? (v : Json) : Option Field := do
  match ← fields? fieldNames v with
  | [name, ty] => some { name := ← name.asString?, fieldType := ← ty.asString? }
  | _ => none

end Field

namespace StructDecl

/-- The fields of the record. -/
def fieldNames : List String := ["name", "type_parameters", "abilities", "fields"]

/-- A struct as a record. -/
def toJson (d : StructDecl) : Json :=
  .object [("name", .string d.name), ("type_parameters", strings d.typeParameters),
    ("abilities", strings (d.abilities.map (·.name))), ("fields", .array (d.fields.map (·.toJson)))]

/-- Reads a struct. -/
def ofJson? (v : Json) : Option StructDecl := do
  match ← fields? fieldNames v with
  | [name, params, abilities, fields] =>
    some {
      name := ← name.asString?
      typeParameters := ← list? asString? params
      abilities := ← list? (choice? Ability.all Ability.name) abilities
      fields := ← list? Field.ofJson? fields }
  | _ => none

end StructDecl

namespace Parameter

/-- The fields of the record. -/
def fieldNames : List String := ["name", "param_type"]

/-- A parameter as a record. -/
def toJson (p : Parameter) : Json :=
  .object [("name", .string p.name), ("param_type", .string p.paramType)]

/-- Reads a parameter. -/
def ofJson? (v : Json) : Option Parameter := do
  match ← fields? fieldNames v with
  | [name, ty] => some { name := ← name.asString?, paramType := ← ty.asString? }
  | _ => none

end Parameter

/-- The members that a function's header contributes to its record. -/
def FunctionHeader.members (h : FunctionHeader) : List (String × Json) :=
  [("visibility", .string h.visibility.name), ("name", .string h.name),
    ("type_parameters", strings h.typeParameters),
    ("parameters", .array (h.parameters.map (·.toJson))), ("return_type", .string h.returnType)]

namespace PseudoFunction

/-- The fields of the record. -/
def fieldNames : List String :=
  ["visibility", "name", "type_parameters", "parameters", "return_type", "statements"]

/-- A function as a record. -/
def toJson (f : PseudoFunction) : Json :=
  .object (f.toFunctionHeader.members ++ [("statements", strings f.statements)])

/-- Reads a function. -/
def ofJson? (v : Json) : Option PseudoFunction := do
  match ← fields? fieldNames v with
  | [visibility, name, typeParams, params, ret, statements] =>
    some {
      visibility := ← choice? Visibility.all Visibility.name visibility
      name := ← name.asString?
      typeParameters := ← list? asString? typeParams
      parameters := ← list? Parameter.ofJson? params
      returnType := ← ret.asString?
      statements := ← list? asString? statements }
  | _ => none

end PseudoFunction

namespace UseDecl

/-- A use declaration as a record. -/
def toJson (d : UseDecl) : Json := .object [("path", .string d.path)]

/-- Reads a use declaration. -/
def ofJson? (v : Json) : Option UseDecl := do
  match ← fields? ["path"] v with
  | [path] => some { path := ← path.asString? }
  | _ => none

end UseDecl

namespace ConstDecl

/-- The fields of the record. -/
def fieldNames : List String := ["name", "const_type", "value"]

/-- A constant as a record. -/
def toJson (d : ConstDecl) : Json :=
  .object [("name", .string d.name), ("const_type", .string d.constType), ("value", .string d.value)]

/-- Reads a constant. -/
def ofJson? (v : Json) : Option ConstDecl := do
  match ← fields? fieldNames v with
  | [name, ty, value] =>
    some { name := ← name.asString?, constType := ← ty.asString?, value := ← value.asString? }
  | _ => none

end ConstDecl

namespace PseudoModule

/-- The fields of the record. -/
def fieldNames : List String := ["module_name", "uses", "constants", "structs", "functions"]

/-- A module as a record. -/
def toJson (m : PseudoModule) : Json :=
  .object [("module_name", .string m.name), ("uses", .array (m.uses.map (·.toJson))),
    ("constants", .array (m.constants.map (·.toJson))),
    ("structs", .array (m.structs.map (·.toJson))),
    ("functions", .array (m.functions.map (·.toJson)))]

/-- Reads a module. -/
def ofJson? (v : Json) : Option PseudoModule := do
  match ← fields? fieldNames v with
  | [name, uses, constants, structs, functions] =>
    some {
      name := ← name.asString?
      uses := ← list? UseDecl.ofJson? uses
      constants := ← list? ConstDecl.ofJson? constants
      structs := ← list? StructDecl.ofJson? structs
      functions := ← list? PseudoFunction.ofJson? functions }
  | _ => none

end PseudoModule

end PseudoMove
