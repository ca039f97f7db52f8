import AzurePipelines.Decimal.Shortest

/-!
# Numbers in positional notation

`Binary64.positionalText` writes a number without an exponent, however large or small it is: a whole
number with every digit of its exact value, any other finite number with the fewest digits that read
back.  Of two equally near decimals the larger is taken.
-/

namespace AzurePipelines.Binary64

/-- A minus sign in front of what belongs to a negative number. -/
def withSign (x : Binary64) (text : List Char) : List Char :=
  if x.isNegative then '-' :: text else text

/-- The number in positional notation, and the words for what is not finite. -/
def positionalText (x : Binary64) : List Char :=
  if x.isNaN then "NaN".toList
  else if x.isInfinite then x.withSign "inf".toList
  else if x.isIntegral then x.withSign (Nat.toDigits 10 x.wholePart)
  else x.withSign (x.shortest .up).positional

example : positionalText ⟨0x3FF8000000000000⟩ = "1.5".toList := by decide +kernel
example : positionalText ⟨0x8000000000000000⟩ = "-0".toList := by decide +kernel
example : positionalText ⟨0x44B52D02C7E14AF6⟩ = "99999999999999991611392".toList := by
  decide +kernel
example : positionalText ⟨0x3E7AD7F29ABCAF48⟩ = "0.0000001".toList := by decide +kernel

end AzurePipelines.Binary64
