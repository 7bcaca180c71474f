import PseudoMove.TypeText
/-!
# Callees

The remark of a call names the function called with the types it takes and gives, as in
`transfer::public_transfer<SUI>(Coin<SUI>,address):()`. It is all that is known about it, and
fixes how many fragments a call takes from the stack and how many values it leaves.
-/

namespace PseudoMove

open Text PseudoMove.Bracket TypeText

/-- A function as a call remark gives it. -/
structure Callee where
  path : String
  typeArguments : List String
  parameterTypes : List String
  returnType : String
deriving DecidableEq, Repr

namespace Callee

/-- The types between two brackets, separated by commas. -/
def typeList (s : List Char) : List String := (splitOutside ',' s).map String.ofList

/-- Reads the parameter list and the return type that follow a path and its type arguments. Text after
the parameters that does not begin with a colon is no return type. -/
def readParameters? (path : List Char) (typeArguments : List String) (s : List Char) :
    Option Callee :=
  match trimStart s with
  | '(' :: r =>
    (enclosed? r).map fun p =>
      { path := String.ofList path
        typeArguments
        parameterTypes := typeList p.1
        returnType :=
          match trim p.2 with
          | ':' :: ret => String.ofList (trim ret)
          | _ => "" }
  | _ => none

/-- Reads a call remark. The path ends at the first `<` or `(` and is one word. -/
def read? (remark : List Char) : Option Callee :=
  let s := trim remark
  let path := trim (s.takeWhile fun c => c ≠ '<' && c ≠ '(')
  if path = [] ∨ path.any isBlank then none
  else
    match s.dropWhile fun c => c ≠ '<' && c ≠ '(' with
    | '<' :: r =>
      (enclosed? r).bind fun p => readParameters? path (typeList p.1) p.2
    | rest => readParameters? path [] rest

/-- How many arguments the call takes. -/
def arity (f : Callee) : Nat := f.parameterTypes.length

/-- How many values the call gives back. -/
def resultCount (f : Callee) : Nat := TypeText.resultCount f.returnType.toList

/-- Whether the call gives back nothing. -/
def returnsUnit (f : Callee) : Bool := f.resultCount == 0

/-- The name of the function called, without module and package. -/
def name (f : Callee) : String := String.ofList (lastSegment f.path.toList)

/-- The function as pseudo-source shows it, with its type arguments if they are to be kept. -/
def render (f : Callee) (keepTypeArguments : Bool) : String :=
  let path := String.ofList (shortPath f.path.toList)
  if keepTypeArguments ∧ f.typeArguments ≠ [] then
    path ++ "<" ++ ", ".intercalate f.typeArguments ++ ">"
  else path

end Callee

end PseudoMove
