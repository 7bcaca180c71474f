import PseudoMove.Identifier
import PseudoMove.TypeText
/-!
# Names from types

Parameters and locals of bytecode have no names, so one is chosen from the type. Well-known types have
fixed names, coins and balances are named after what they hold, vectors get a plural, and any other
type is named in snake case. What the enclosing function does, as its name tells, may override this.
Nothing here fails: every text taken as a type gives a name.
-/

namespace PseudoMove

open Text TypeText Identifier

/-- Where a name is chosen: the name of the function, if one is known, and how many of its earlier
parameters have the same base type. -/
structure NameContext where
  function : Option String := none
  position : Nat := 0
deriving DecidableEq, Repr

namespace Naming

/-- The names of values of well-known types. -/
def wellKnown : List (String × String) :=
  [("TxContext", "ctx"), ("UID", "id"), ("ID", "id"), ("Clock", "clock"), ("Random", "random"),
    ("Publisher", "publisher"), ("AdminCap", "admin_cap"), ("OwnerCap", "owner_cap"),
    ("TreasuryCap", "treasury_cap"), ("UpgradeCap", "upgrade_cap"), ("DenyCap", "deny_cap"),
    ("Kiosk", "kiosk"), ("KioskOwnerCap", "kiosk_cap"), ("TransferPolicy", "policy"),
    ("TransferPolicyCap", "policy_cap"), ("CoinMetadata", "metadata"), ("signer", "account"),
    ("Table", "table"), ("ObjectTable", "object_table"), ("Bag", "bag"),
    ("ObjectBag", "object_bag"), ("VecMap", "map"), ("VecSet", "set"),
    ("LinkedTable", "linked_table"), ("Option", "opt"), ("String", "name"), ("Url", "url"),
    ("address", "addr"), ("bool", "flag"), ("u8", "byte"), ("u16", "value"), ("u32", "value"),
    ("u64", "amount"), ("u128", "value"), ("u256", "value")]

/-- The words of the source language, which name nothing. -/
def reserved : List String :=
  ["abort", "acquires", "as", "break", "const", "continue", "copy", "else", "enum", "false",
    "friend", "fun", "has", "if", "let", "loop", "match", "module", "move", "mut", "native",
    "public", "return", "script", "spec", "struct", "true", "type", "use", "while"]

/-- Whether a base name is that of a type parameter: a capital letter with at most one digit. -/
def isTypeParameter : List Char → Bool
  | [] => false
  | c :: s => c.isUpper && s.length ≤ 1 && s.all Char.isDigit

/-- Whether a base name is that of a type which holds a currency. -/
def holdsCurrency (base : String) : Bool := base = "Coin" || base = "Balance"

/-- The name of several things, given the name of one. -/
def plural (name : String) : String :=
  if name.toList.getLast? = some 's' then name ++ "_list" else name ++ "s"

/-- A base name in snake case. -/
def snake (base : List Char) : String := String.ofList (snakeCase base)

/-- The name of a coin or balance: what it holds, unless that is a type parameter, and the kind. -/
def coinName (base : List Char) (args : List (List Char)) : String :=
  match args with
  | [] => snake base
  | arg :: _ =>
    let held := baseName arg
    if isTypeParameter held then snake base else snake held ++ "_" ++ snake base

/-- The name of a type without a fixed one. -/
def ordinaryName (base : List Char) : String :=
  if base = [] ∨ isTypeParameter base then "value" else String.ofList (sanitize (snakeCase base))

/-- The name of a value of a given type wherever it stands. -/
def plainName (ty : List Char) : String :=
  let base := baseName ty
  if holdsCurrency (String.ofList base) then coinName base (arguments ty)
  else if String.ofList base = "vector" then
    match _h : arguments ty with
    | [] => "items"
    | elem :: _ =>
      if String.ofList (referent elem) = "u8" then "bytes" else plural (plainName elem)
  else
    match wellKnown.lookup (String.ofList base) with
    | some name => name
    | none => ordinaryName base
termination_by ty.length
decreasing_by exact length_lt_of_mem_arguments (_h ▸ List.mem_cons_self)

/-- The name that the enclosing function implies, if it does. -/
def impliedName (ty : List Char) (ctx : NameContext) : Option String := do
  let function := lower (← ctx.function).toList
  let base := String.ofList (baseName ty)
  let kind := snake (baseName ty)
  if occursIn "swap".toList function then
    if holdsCurrency base then some (if ctx.position = 0 then kind ++ "_in" else kind ++ "_out")
    else if base = "u64" then some (if ctx.position = 0 then "amount_in" else "min_amount_out")
    else none
  else if occursIn "transfer".toList function then
    if base = "address" then some "recipient"
    else if holdsCurrency base then some kind
    else none
  else if occursIn "deposit".toList function then
    if holdsCurrency base then some "payment"
    else if base = "u64" then some "amount"
    else none
  else if occursIn "withdraw".toList function || occursIn "mint".toList function then
    if base = "u64" then some "amount"
    else if base = "address" then some "recipient"
    else none
  else if occursIn "burn".toList function then
    if holdsCurrency base then some (kind ++ "_to_burn")
    else if base = "u64" then some "amount"
    else none
  else none

/-- A name that is no reserved word. -/
def escapeReserved (name : String) : String := if name ∈ reserved then name ++ "_" else name

/-- The name of a value of a given type in a context. -/
def nameFor (ty : List Char) (ctx : NameContext) : String :=
  escapeReserved ((impliedName ty ctx).getD (plainName ty))

end Naming

end PseudoMove
