import PseudoMove.NameSupply
/-!
# Locals

The slots of a function are its parameters and its locals. The table of locals gives slots their names.
An entry never changes and never goes.
-/

namespace PseudoMove

/-- A slot: the `n`-th parameter or the `n`-th local. -/
inductive Slot where
  | arg (n : Nat)
  | loc (n : Nat)
deriving DecidableEq, Repr

/-- The slot's own name. -/
def Slot.label : Slot → String
  | .arg n => "Arg" ++ toString n
  | .loc n => "L" ++ toString n

/-- The names of slots in the order in which they were bound, and the supply of all names in use. -/
structure LocalNames where
  names : List (Slot × String) := []
  supply : NameSupply := {}
deriving Repr

namespace LocalNames

/-- The name of a slot. -/
def get? (t : LocalNames) (slot : Slot) : Option String := t.names.lookup slot

/-- The name of a slot, which is made from `base` if the slot has none yet. -/
def bind (t : LocalNames) (slot : Slot) (base : String) : String × LocalNames :=
  match t.get? slot with
  | some name => (name, t)
  | none =>
    let r := t.supply.fresh base
    (r.1, { names := t.names ++ [(slot, r.1)], supply := r.2 })

/-- A name that belongs to no slot. -/
def temporary (t : LocalNames) (base : String) : String × LocalNames :=
  let r := t.supply.fresh base
  (r.1, { t with supply := r.2 })

/-- Several names that belong to no slot, in order. -/
def temporaries (t : LocalNames) (base : String) : Nat → List String × LocalNames
  | 0 => ([], t)
  | n + 1 =>
    let r := t.temporary base
    let rs := r.2.temporaries base n
    (r.1 :: rs.1, rs.2)

/-- How many slots have a name. -/
def size (t : LocalNames) : Nat := t.names.length

end LocalNames

end PseudoMove
