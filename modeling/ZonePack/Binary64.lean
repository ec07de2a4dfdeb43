/-!
# ZonePack.Binary64

Finite numbers of the IEEE 754 double format, kept exactly.  Every magnitude of
the format is a whole multiple of the least positive one, `2 ^ -1074`, so a
number is its sign and a natural number of such units; arithmetic is exact
arithmetic on naturals followed by one rounding (`nearest`), to the nearest
number of the format and, between two, to the one whose significand is even.

The operations here are those that turn a decimal significand and exponent into
a number: conversion of a natural, and multiplication and division by the
number nearest to a power of ten.
-/

namespace ZonePack

/-- A finite number of the double format. -/
structure Binary64 where
  negative : Bool
  /-- The magnitude in units of `2 ^ -1074`. -/
  units : Nat
  deriving DecidableEq, Repr

namespace Binary64

/-- How many units make one. -/
def one : Nat := Nat.pow 2 1074

/-- Magnitudes from here on are beyond the largest finite one. -/
def overflow : Nat := Nat.pow 2 2098

/-- The distance, in units, between neighbouring magnitudes around a magnitude
of `u` units: significands have 53 bits, so it is one unit up to `2 ^ 53` units
and doubles with each further bit. -/
def spacing (u : Nat) : Nat := Nat.pow 2 (u.log2 - 52)

/-! ## Rounding -/

/-- The magnitude nearest to `num / den` units, ties to the even significand.
The exponent is not limited: the caller compares with `overflow`. -/
def nearest (num den : Nat) : Nat :=
  let step := spacing (num / den)
  let significand := num / (den * step)
  let twice := 2 * (num % (den * step))
  if twice < den * step ∨ (twice = den * step ∧ significand % 2 = 0) then
    significand * step
  else
    (significand + 1) * step

/-- The magnitude, in units, of the number nearest to a natural. -/
def unitsOfNat (n : Nat) : Nat := nearest (n * one) 1

/-- The magnitude of the number nearest to `10 ^ k`. -/
def tenPow (k : Nat) : Nat := unitsOfNat (Nat.pow 10 k)

/-- The largest power of ten in the format. -/
def maxTenPow : Nat := 308

/-- The product of two magnitudes, rounded; none when it is not finite. -/
def mul? (a b : Nat) : Option Nat :=
  let product := nearest (a * b) one
  if product < overflow then some product else none

/-- The quotient of two magnitudes, rounded. -/
def div (a b : Nat) : Nat := nearest (a * one) b

/-! ## Decimal scaling -/

/-- `u` divided by the largest power of ten, `n` times over, each time rounded. -/
def divMaxTenPow : Nat → Nat → Nat
  | 0, u => u
  | n + 1, u => if u = 0 then 0 else divMaxTenPow n (div u (tenPow maxTenPow))

/-- `u` divided by `10 ^ k`, for a positive `k`: as long as the divisor is beyond
the format by the largest power of ten, and then by what is left of it. -/
def scaleDown (u k : Nat) : Nat :=
  let steps := (k - 1) / maxTenPow
  div (divMaxTenPow steps u) (tenPow (k - steps * maxTenPow))

/-- `u` multiplied by `10 ^ k`; none when that is beyond the largest magnitude. -/
def scaleUp? (u k : Nat) : Option Nat :=
  if u = 0 then some 0
  else if k ≤ maxTenPow then mul? u (tenPow k)
  else none

/-- The number `significand * 10 ^ exponent` as two roundings give it: first the
significand becomes a number of the format, then it is scaled. -/
def ofDecimal? (negative : Bool) (significand : Nat) (exponent : Int) : Option Binary64 :=
  let u := unitsOfNat significand
  match exponent with
  | .ofNat k => (scaleUp? u k).map (⟨negative, ·⟩)
  | .negSucc k => some ⟨negative, scaleDown u (k + 1)⟩

/-! ## Whole numbers -/

/-- The number nearest to an integer. -/
def ofInt (n : Int) : Binary64 := ⟨decide (n < 0), unitsOfNat n.natAbs⟩

/-- The integer that the number is, if it has no fraction. -/
def toInt? (x : Binary64) : Option Int :=
  if x.units % one = 0 then
    let n : Int := x.units / one
    some (if x.negative then -n else n)
  else
    none

end Binary64

end ZonePack
