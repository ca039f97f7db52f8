import AzurePipelines.Decimal.Binary64

/-!
# Shortest decimals

The decimal numbers that round to a given finite `Binary64` fill an interval around it, ends
included when the significand is even.  `Binary64.shortest` is the decimal of the coarsest grid of
multiples of a power of ten that has a point in this interval, and there the point nearest to the
number.  All arithmetic is on natural numbers: values are counted in quarters of `10 ^ -downShift`,
in which the number and both ends of its interval are whole.
-/

namespace AzurePipelines

/-- The decimal number `digits · 10 ^ exponent`. -/
structure Decimal where
  digits : Nat
  exponent : Int
deriving DecidableEq, Repr

/-- Which of two equally near neighbours is taken. -/
inductive Tie where
  | up
  | even
deriving DecidableEq, Repr

namespace Binary64

/-- The magnitude in quarters of `10 ^ -downShift`. -/
def centre (x : Binary64) : Nat := 4 * (x.significand * Nat.pow 2 x.upShift) * Nat.pow 5 x.downShift

/-- A quarter of the distance to the next larger number. -/
def quarterGap (x : Binary64) : Nat := Nat.pow 2 x.upShift * Nat.pow 5 x.downShift

/-- The least end of the interval of values that round to `x`: half a gap below it, and a quarter
where `x` is a power of two and the numbers below it lie twice as dense. -/
def lowEnd (x : Binary64) : Nat :=
  x.centre - (if x.fraction = 0 ∧ 1 < x.exponentField then 1 else 2) * x.quarterGap

/-- The greatest end of the interval of values that round to `x`. -/
def highEnd (x : Binary64) : Nat := x.centre + 2 * x.quarterGap

/-- A value, in the same quarters, rounds to `x`. -/
def rounds (x : Binary64) (value : Nat) : Bool :=
  if x.significand % 2 = 0 then decide (x.lowEnd ≤ value ∧ value ≤ x.highEnd)
  else decide (x.lowEnd < value ∧ value < x.highEnd)

/-- The point of the grid of multiples of `10 ^ j` that is nearest to `x` among those that round to
it, as a count of grid steps. -/
def nearestOnGrid (tie : Tie) (x : Binary64) (j : Nat) : Option Nat :=
  let unit := 4 * Nat.pow 10 j
  let below := x.centre / unit
  let rest := x.centre % unit
  match x.rounds (below * unit), x.rounds ((below + 1) * unit) with
  | false, false => none
  | true, false => some below
  | false, true => some (below + 1)
  | true, true =>
    let up : Bool := match tie with
      | .up => decide (unit ≤ 2 * rest)
      | .even => decide (unit < 2 * rest ∨ (unit = 2 * rest ∧ below % 2 = 1))
    some (if up then below + 1 else below)

/-- The point on the coarsest grid from `10 ^ j` downwards that has one, with its grid. -/
def onCoarsestGrid (tie : Tie) (x : Binary64) : Nat → Nat × Nat
  | 0 => ((x.nearestOnGrid tie 0).getD 0, 0)
  | j + 1 =>
    match x.nearestOnGrid tie (j + 1) with
    | some n => (n, j + 1)
    | none => onCoarsestGrid tie x j

/-- The decimal with the fewest digits among those that round to the finite number `x`, and of these
the nearest to it. -/
def shortest (tie : Tie) (x : Binary64) : Decimal :=
  if x.significand = 0 then ⟨0, 0⟩
  else
    let (n, j) := x.onCoarsestGrid tie (Nat.toDigits 10 x.highEnd).length
    ⟨n, (j : Int) - x.downShift⟩

example : shortest .up ⟨0x3FB999999999999A⟩ = ⟨1, -1⟩ := by decide +kernel
example : shortest .up ⟨0x0000000000000001⟩ = ⟨5, -324⟩ := by decide +kernel
example : shortest .up ⟨0x7FEFFFFFFFFFFFFF⟩ = ⟨17976931348623157, 292⟩ := by decide +kernel
example : shortest .even ⟨0x4415AF1D78B58C40⟩ = ⟨1, 20⟩ := by decide +kernel

end Binary64

namespace Decimal

/-- Positional notation without an exponent: zeros are filled in up to the point, and a number
below one starts with `0.`; a whole number has no point. -/
def positional (d : Decimal) : List Char :=
  let digits := Nat.toDigits 10 d.digits
  if 0 ≤ d.exponent then digits ++ List.replicate d.exponent.toNat '0'
  else
    let places := (-d.exponent).toNat
    if places < digits.length then
      digits.take (digits.length - places) ++ '.' :: digits.drop (digits.length - places)
    else '0' :: '.' :: (List.replicate (places - digits.length) '0' ++ digits)

/-- Notation with one digit before the point and the exponent after an `e`; a single digit has no
point. -/
def scientific (d : Decimal) : List Char :=
  let digits := Nat.toDigits 10 d.digits
  let exponent := (toString (d.exponent + (digits.length : Int) - 1)).toList
  match digits with
  | [] => []
  | [first] => first :: 'e' :: exponent
  | first :: rest => first :: '.' :: rest ++ 'e' :: exponent

example : positional ⟨15, -1⟩ = "1.5".toList := by decide
example : positional ⟨15, -3⟩ = "0.015".toList := by decide
example : positional ⟨15, 2⟩ = "1500".toList := by decide
example : scientific ⟨15, -8⟩ = "1.5e-7".toList := by decide +kernel

end Decimal

end AzurePipelines
