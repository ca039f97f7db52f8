/-!
# Binary floating-point numbers of 64 bits

A `Binary64` is its bit pattern: one bit of sign, eleven of exponent and fifty-two of fraction, read
as the standard for binary interchange formats lays down.  A finite number has the magnitude
`significand · 2 ^ upShift / 2 ^ downShift`, where one of the two shifts is zero, so that all
questions about its value are questions about natural numbers.
-/

namespace AzurePipelines

/-- A binary floating-point number of 64 bits. -/
structure Binary64 where
  bits : UInt64
deriving DecidableEq, Repr

namespace Binary64

/-! ## Fields -/

/-- The sign bit, also of zeros and of what is not a number. -/
def isNegative (x : Binary64) : Bool := decide (Nat.pow 2 63 ≤ x.bits.toNat)

/-- The eleven bits of the biased exponent. -/
def exponentField (x : Binary64) : Nat := x.bits.toNat / Nat.pow 2 52 % Nat.pow 2 11

/-- The fifty-two bits of the fraction. -/
def fraction (x : Binary64) : Nat := x.bits.toNat % Nat.pow 2 52

def isFinite (x : Binary64) : Bool := x.exponentField != 2047

def isNaN (x : Binary64) : Bool := x.exponentField == 2047 && x.fraction != 0

def isInfinite (x : Binary64) : Bool := x.exponentField == 2047 && x.fraction == 0

/-! ## Values of finite numbers -/

/-- The fraction with its leading bit, which numbers of the smallest exponent do not have. -/
def significand (x : Binary64) : Nat :=
  if x.exponentField = 0 then x.fraction else Nat.pow 2 52 + x.fraction

/-- How far the significand is shifted to the left. -/
def upShift (x : Binary64) : Nat := max x.exponentField 1 - 1075

/-- How far the significand is shifted to the right. -/
def downShift (x : Binary64) : Nat := 1075 - max x.exponentField 1

/-- Zero of either sign. -/
def isZero (x : Binary64) : Bool := x.isFinite && x.significand == 0

/-- A finite number without a fractional part. -/
def isIntegral (x : Binary64) : Bool :=
  x.isFinite && x.significand % Nat.pow 2 x.downShift == 0

/-- The whole part of the magnitude of a finite number. -/
def wholePart (x : Binary64) : Nat := x.significand * Nat.pow 2 x.upShift / Nat.pow 2 x.downShift

/-! ## Rounding integers -/

/-- The bits of the number nearest to `n`, with the sign bit clear; of two that are equally near,
the one with an even significand.  The carry of a significand that rounds up to the next power of
two runs into the exponent, where it belongs. -/
def roundBits (n : Nat) : Nat :=
  let top := n.log2
  if n = 0 then 0
  else if top ≤ 52 then (top + 1023) * Nat.pow 2 52 + (n * Nat.pow 2 (52 - top) - Nat.pow 2 52)
  else
    let unit := Nat.pow 2 (top - 52)
    let kept := n / unit
    let roundsUp := unit < 2 * (n % unit) ∨ (unit = 2 * (n % unit) ∧ kept % 2 = 1)
    let bits := (top + 1023) * Nat.pow 2 52 + (kept - Nat.pow 2 52) + if roundsUp then 1 else 0
    min bits (2047 * Nat.pow 2 52)

/-- The number nearest to an integer, ties to the even significand. -/
def ofInt (n : Int) : Binary64 :=
  ⟨UInt64.ofNat (roundBits n.natAbs + if n < 0 then Nat.pow 2 63 else 0)⟩

example : ofInt 1 = ⟨0x3FF0000000000000⟩ := by decide
example : ofInt (-3) = ⟨0xC008000000000000⟩ := by decide
example : ofInt 18446744073709551615 = ⟨0x43F0000000000000⟩ := by decide
example : ofInt 9007199254740993 = ⟨0x4340000000000000⟩ := by decide

end Binary64

end AzurePipelines
