/-!
# Texts that denote floating-point numbers

The grammar of decimal floating-point literals: an optional sign, then a spelling of infinity or of
what is not a number in any letter case, or digits with an optional point among, before or after
them and an optional exponent.  There is no bound on the number of digits.
-/

namespace AzurePipelines.Decimal

/-- The text without a sign in front. -/
def dropSign : List Char → List Char
  | '+' :: text => text
  | '-' :: text => text
  | text => text

/-- Nothing, or an exponent: `e` in either case, an optional sign, and digits. -/
def isExponentOrNothing : List Char → Bool
  | [] => true
  | c :: text =>
    (c == 'e' || c == 'E') && !(dropSign text).isEmpty && (dropSign text).all Char.isDigit

/-- Digits with at most one point and an optional exponent; at least one digit stands beside the
point. -/
def isUnsignedLiteral (text : List Char) : Bool :=
  let whole := text.takeWhile Char.isDigit
  match text.dropWhile Char.isDigit with
  | '.' :: rest =>
    let places := rest.takeWhile Char.isDigit
    !(whole.isEmpty && places.isEmpty) && isExponentOrNothing (rest.dropWhile Char.isDigit)
  | rest => !whole.isEmpty && isExponentOrNothing rest

/-- The spellings, in lower case, of the values that are not finite. -/
def nonFiniteSpellings : List (List Char) :=
  ["inf".toList, "infinity".toList, "nan".toList]

/-- The text denotes a floating-point number. -/
def isLiteral (text : List Char) : Bool :=
  let unsigned := dropSign text
  nonFiniteSpellings.contains (unsigned.map Char.toLower) || isUnsignedLiteral unsigned

example : (["1", "1.", ".5", "-1.5e+3", "1E7", "Infinity", "+nan"].map
    (isLiteral ·.toList)).all id = true := by decide
example : (["", "+", ".", "e5", "1e", "1e+", "1.2.3", "--1", "1_0", "infinit", "0x1"].map
    (isLiteral ·.toList)).any id = false := by decide

end AzurePipelines.Decimal
