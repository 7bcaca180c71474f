/-!
# JSON values

Objects keep the order of their members and every repetition of a name, and numbers keep their spelling,
so that a value is all there is to know about a JSON text besides its layout.
-/

namespace PseudoMove

/-- A JSON value. A number is given by its spelling. -/
inductive Json where
  | null
  | bool (b : Bool)
  | number (literal : List Char)
  | string (s : String)
  | array (items : List Json)
  | object (members : List (String × Json))

namespace Json

/-- A natural number. -/
def nat (n : Nat) : Json := .number (toString n).toList

/-- A number of halves, with one decimal. -/
def halves (n : Nat) : Json :=
  .number (toString (n / 2) ++ if n % 2 = 0 then ".0" else ".5").toList

/-- An array of strings. -/
def strings (ss : List String) : Json := .array (ss.map .string)

/-- The first member of a given name. -/
def member? (members : List (String × Json)) (name : String) : Option Json := members.lookup name

/-- The text of a string value. -/
def asString? : Json → Option String
  | .string s => some s
  | _ => none

/-- The truth value. -/
def asBool? : Json → Option Bool
  | .bool b => some b
  | _ => none

/-- The items of an array. -/
def asArray? : Json → Option (List Json)
  | .array items => some items
  | _ => none

end Json

end PseudoMove
