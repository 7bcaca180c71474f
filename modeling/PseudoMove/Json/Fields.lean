import PseudoMove.Json.Value
/-!
# Records in JSON

A record is written as an object with its fields by name. It is read from such an object, in which
other members do not matter but no field may be missing or repeated, or from the array of its fields
in order.
-/

namespace PseudoMove.Json

/-- The values of the fields of a record, in the order of `names`. -/
def fields? (names : List String) : Json → Option (List Json)
  | .object members =>
    names.mapM fun name =>
      match members.filter (·.1 = name) with
      | [(_, v)] => some v
      | _ => none
  | .array items => if items.length = names.length then some items else none
  | _ => none

/-- Reads an array whose items can all be read. -/
def list? {α : Type} (item? : Json → Option α) (v : Json) : Option (List α) := do
  (← v.asArray?).mapM item?

/-- Reads one of some choices by its name. A choice may also be written as an object whose only member
is null. -/
def choice? {α : Type} (choices : List α) (name : α → String) : Json → Option α
  | .string s => choices.find? fun a => name a = s
  | .object [(s, .null)] => choices.find? fun a => name a = s
  | _ => none

end PseudoMove.Json
