import ZonePack.Binary64

/-!
# ZonePack.Binary64.Shortest

The shortest decimal that reads back as a number.  The reals that round to a
magnitude form an interval around it, which holds its ends when the significand
is even.  For one, two, … seventeen digits, `Decimal.shortest` looks at the two
neighbours of the magnitude on that decimal grid; the first grid with a
neighbour in the interval wins, and of two such neighbours the nearer.

How the digits are laid out is a `DecimalLayout`.
-/

namespace ZonePack

/-- The decimal `0.d₁d₂… * 10 ^ point`, its digits `d₁d₂…` without leading or
trailing zeros; zero has no digits. -/
structure Decimal where
  digits : List Char
  point : Int
  deriving DecidableEq, Repr

/-- Which of two equally near neighbours to take. -/
inductive Tie where
  /-- The one farther from zero. -/
  | away
  /-- The one whose last digit is even. -/
  | even
  deriving DecidableEq, Repr

namespace Decimal

/-- The decimal `n * 10 ^ exponent`. -/
def ofNat (n : Nat) (exponent : Int) : Decimal :=
  if n = 0 then ⟨[], 0⟩
  else
    let digits := Nat.toDigits 10 n
    ⟨(digits.reverse.dropWhile (· = '0')).reverse, digits.length + exponent⟩

/-- The multiple of `10 ^ exponent` next to a magnitude of `u` units that reads
back as it, if there is one; of two the nearer. -/
def onGrid? (tie : Tie) (u : Nat) (exponent : Int) : Option Nat :=
  let step := Binary64.spacing u
  let isEven := u / step % 2 = 0
  -- everything is counted in quarters of a unit, over the grid's denominator
  let up := Nat.pow 10 (-exponent).toNat
  let den := 4 * Binary64.one * Nat.pow 10 exponent.toNat
  let roomBelow := (if 1 < step ∧ u = Nat.pow 2 52 * step then step else 2 * step) * up
  let roomAbove := 2 * step * up
  let floor := 4 * u * up / den
  let past := 4 * u * up % den
  let left := den - past
  let lower := past < roomBelow ∨ (past = roomBelow ∧ isEven)
  let upper := left < roomAbove ∨ (left = roomAbove ∧ isEven)
  if lower ∧ upper then
    if past < left then some floor
    else if left < past then some (floor + 1)
    else match tie with
      | .away => some (floor + 1)
      | .even => some (if floor % 2 = 0 then floor else floor + 1)
  else if lower then some floor
  else if upper then some (floor + 1)
  else none

/-- The exponent of the leading digit of a positive magnitude: 324 places past
the point, the least magnitude still has a digit before it. -/
def leadingExponent (u : Nat) : Int :=
  (Nat.toDigits 10 (u * Nat.pow 10 324 / Binary64.one)).length - 325

/-- The shortest decimal that reads back as a magnitude of `u` units. -/
def shortest (tie : Tie) (u : Nat) : Decimal :=
  if u = 0 then ⟨[], 0⟩
  else
    let found := (List.range 17).findSome? fun (places : Nat) =>
      let exponent := leadingExponent u - places
      (onGrid? tie u exponent).map (ofNat · exponent)
    found.getD ⟨[], 0⟩

end Decimal

/-! ## Layout -/

/-- How a number is written from its shortest digits. -/
structure DecimalLayout where
  tie : Tie
  /-- Whether a whole number ends in `.0`. -/
  pointed : Bool
  /-- The exponents of the leading digit, from the least to the greatest, that
  are written without an exponent; all of them when missing. -/
  positional : Option (Int × Int)

namespace DecimalLayout

/-- Digits around a decimal point. -/
def positionalText (pointed : Bool) (d : Decimal) : List Char :=
  let whole := d.digits.take d.point.toNat ++ List.replicate (d.point.toNat - d.digits.length) '0'
  let fraction := List.replicate (-d.point).toNat '0' ++ d.digits.drop d.point.toNat
  let whole := if whole = [] then ['0'] else whole
  if fraction = [] then whole ++ (if pointed then ['.', '0'] else []) else whole ++ '.' :: fraction

/-- One digit before the point, and an exponent that always has a sign. -/
def scientificText (d : Decimal) : List Char :=
  let exponent := d.point - 1
  let mark := if exponent < 0 then ['e'] else ['e', '+']
  let tail := d.digits.drop 1
  d.digits.take 1 ++ (if tail = [] then [] else '.' :: tail) ++ mark ++ exponent.repr.toList

/-- The text of a number. -/
def text (layout : DecimalLayout) (x : Binary64) : String :=
  let d := Decimal.shortest layout.tie x.units
  let isPositional := d.digits = [] ∨
    layout.positional.all fun (least, greatest) =>
      decide (least ≤ d.point - 1) && decide (d.point - 1 ≤ greatest)
  let sign := if x.negative then ['-'] else []
  String.ofList (sign ++ if isPositional then positionalText layout.pointed d else scientificText d)

end DecimalLayout

end ZonePack
