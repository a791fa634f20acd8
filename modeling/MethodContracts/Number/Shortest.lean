/-!
# Shortest decimals

A positive binary number `mantissa · 2 ^ exponent` stands for an interval of reals: those that
round to it. The shortest decimal of the number is the one with the fewest digits in that
interval, and among those the nearest to the number itself.

The search is exact. Distances are measured in quarters of the last binary place, so the
interval, the number and every decimal `digits · 10 ^ scale` are compared as natural
numbers over one common denominator. With `n` digits only the two neighbours of the number
on the decimal grid need a test.
-/

namespace MethodContracts.Number

/-- The decimal `digits · 10 ^ scale`. -/
structure Decimal where
  digits : Nat
  scale : Int
deriving DecidableEq, Repr

/-- The positive binary number `mantissa · 2 ^ exponent`, together with the gap below it:
`narrow` holds when the next smaller number is only half as far away as the next larger. -/
structure Binary where
  mantissa : Nat
  exponent : Int
  narrow : Bool
deriving DecidableEq, Repr

namespace Binary

/-- Lower end of the rounding interval, in quarters of the last place. -/
def lower (v : Binary) : Nat := if v.narrow then 4 * v.mantissa - 1 else 4 * v.mantissa - 2

/-- Upper end of the rounding interval, in quarters of the last place. -/
def upper (v : Binary) : Nat := 4 * v.mantissa + 2

/-- Numbers with an even mantissa own both ends of their interval: halves round to even. -/
def ownsEnds (v : Binary) : Bool := v.mantissa % 2 = 0

/-- How many digits a natural number has. -/
def digitCount (n : Nat) : Nat := (Nat.toDigits 10 n).length

/-- The place of the decimal point: `10 ^ (point - 1) ≤ v < 10 ^ point`. -/
def point (v : Binary) : Int :=
  let num := v.mantissa * Nat.pow 2 v.exponent.toNat
  let den := Nat.pow 2 (-v.exponent).toNat
  if den ≤ num then digitCount (num / den) else 1 - (digitCount ((den - 1) / num) : Int)

/-- Factors that bring the grid `10 ^ scale` and quarters of the last place to a common
denominator: the decimal `d · 10 ^ scale` and `x` quarters are `d * grid` against
`x * quarter`. -/
def common (v : Binary) (scale : Int) : Nat × Nat :=
  let e := v.exponent - 2
  (Nat.pow 2 (-e).toNat * Nat.pow 10 scale.toNat,
    Nat.pow 2 e.toNat * Nat.pow 10 (-scale).toNat)

/-- The decimal `d · 10 ^ scale` rounds to `v`. -/
def owns (v : Binary) (scale : Int) (d : Nat) : Bool :=
  let (grid, quarter) := v.common scale
  let x := d * grid
  if v.ownsEnds then v.lower * quarter ≤ x ∧ x ≤ v.upper * quarter
  else v.lower * quarter < x ∧ x < v.upper * quarter

/-- The largest `d` with `d · 10 ^ scale` at most `v`. -/
def below (v : Binary) (scale : Int) : Nat :=
  let (grid, quarter) := v.common scale
  4 * v.mantissa * quarter / grid

/-- The point of the grid `10 ^ scale` nearest to `v`; halfway goes to the larger one. -/
def nearest (v : Binary) (scale : Int) : Nat :=
  let (grid, quarter) := v.common scale
  let value := 4 * v.mantissa * quarter
  let d := v.below scale
  if (d + 1) * grid - value ≤ value - d * grid then d + 1 else d

/-- The better of the two neighbours of `v` on the grid `10 ^ scale` that rounds to `v`. -/
def neighbour? (v : Binary) (scale : Int) : Option Nat :=
  let d := v.below scale
  match v.owns scale d, v.owns scale (d + 1) with
  | true, true => some (v.nearest scale)
  | true, false => some d
  | false, true => some (d + 1)
  | false, false => none

/-- The first hit among `tries` grids, from the one with `n` digits on; after those, the
nearest point of the next grid. -/
def search (v : Binary) (n : Nat) : Nat → Decimal
  | 0 => ⟨v.nearest (v.point - n), v.point - n⟩
  | tries + 1 =>
    match v.neighbour? (v.point - n) with
    | some d => ⟨d, v.point - n⟩
    | none => v.search (n + 1) tries

/-- The shortest decimal that rounds to `v`. Seventeen digits always suffice for a
mantissa of 53 bits, so the search ends with them. -/
def shortest (v : Binary) : Decimal := v.search 1 16

end Binary

end MethodContracts.Number
