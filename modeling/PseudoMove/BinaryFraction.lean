/-!
# Binary fractions

Nonnegative numbers with a power of two as denominator, and the two roundings that times are shown
with: to the nearest such number of 53 significant bits, and to a fixed number of decimals. Both are
exact, and a half goes to the even neighbour. Numbers too small or too large for an exponent do not
occur.
-/

namespace PseudoMove

/-- The quotient of two numbers as the nearest whole number, a half to the even one. -/
def roundDiv (n d : Nat) : Nat :=
  let q := n / d
  let r := n % d
  if 2 * r < d then q
  else if d < 2 * r then q + 1
  else q + q % 2

/-- The number `num / 2 ^ scale`. -/
structure BinaryFraction where
  num : Nat
  scale : Nat
deriving DecidableEq, Repr

namespace BinaryFraction

/-- The significant bits of a rounded number. -/
def precision : Nat := 53

/-- The quotient `n / d` with its binary point moved to the right by `s` places, as numerator and
denominator. -/
def scaled (n d : Nat) (s : Int) : Nat × Nat :=
  if 0 ≤ s then (n <<< s.toNat, d) else (n, d <<< (-s).toNat)

/-- The quotient `n / d` rounded to the precision. -/
def nearest (n d : Nat) : BinaryFraction :=
  if n = 0 then ⟨0, 0⟩
  else
    let s : Int := (precision : Int) - 1 - (n.log2 - d.log2)
    let low := scaled n d s
    let s := if low.1 < low.2 <<< (precision - 1) then s + 1 else s
    let q := scaled n d s
    let m := roundDiv q.1 q.2
    if 0 ≤ s then ⟨m, s.toNat⟩ else ⟨m <<< (-s).toNat, 0⟩

/-- The rounded sum. -/
def add (a b : BinaryFraction) : BinaryFraction :=
  nearest (a.num <<< b.scale + b.num <<< a.scale) (1 <<< (a.scale + b.scale))

/-- The rounded product with a whole number. -/
def scaleBy (k : Nat) (a : BinaryFraction) : BinaryFraction := nearest (a.num * k) (1 <<< a.scale)

/-- The rounded quotient by a whole number. -/
def divideBy (k : Nat) (a : BinaryFraction) : BinaryFraction := nearest a.num (k <<< a.scale)

/-- The whole part. -/
def floor (a : BinaryFraction) : Nat := a.num >>> a.scale

/-- The remainder after whole multiples of `k`. -/
def modulo (k : Nat) (a : BinaryFraction) : BinaryFraction := ⟨a.num % (k <<< a.scale), a.scale⟩

/-- Whether one number is less than another. -/
def isLess (a b : BinaryFraction) : Bool := a.num <<< b.scale < b.num <<< a.scale

/-- The number with a fixed number of decimals, at least one. -/
def fixed (places : Nat) (a : BinaryFraction) : String :=
  let unit := Nat.pow 10 places
  let m := roundDiv (a.num * unit) (1 <<< a.scale)
  let decimals := toString (m % unit)
  toString (m / unit) ++ "." ++
    String.ofList (List.replicate (places - decimals.length) '0') ++ decimals

end BinaryFraction

end PseudoMove
