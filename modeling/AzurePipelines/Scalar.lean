import AzurePipelines.Decimal.Positional
import AzurePipelines.Reference

/-!
# Scalars

The leaf values of a pipeline.  Integers, floating-point numbers and booleans are typed: they are
written bare, and a reader takes them for what they are.  A macro variable and a template parameter
stand for text that is filled in later, and are written as the text of their token.
-/

namespace AzurePipelines

/-- A single leaf value. -/
inductive Scalar where
  | string (text : String)
  | integer (n : Int)
  | float (x : Binary64)
  | boolean (b : Bool)
  /-- A macro variable, replaced while a pipeline runs. -/
  | variable (name : String)
  /-- A template parameter, replaced when a template is expanded. -/
  | parameter (reference : ParameterReference)
deriving DecidableEq

namespace Scalar

/-- A floating-point number as text: a whole number keeps a zero after its point. -/
def floatText (x : Binary64) : List Char :=
  if x.isIntegral then x.positionalText ++ ".0".toList else x.positionalText

/-- The text that the scalar stands for, before any quoting. -/
def text : Scalar → String
  | .string text => text
  | .integer n => toString n
  | .float x => String.ofList (floatText x)
  | .boolean b => if b then "true" else "false"
  | .variable name => "$(" ++ name ++ ")"
  | .parameter reference => reference.token

/-- Typed values are written bare; all others are text. -/
def isTyped : Scalar → Bool
  | .integer _ | .float _ | .boolean _ => true
  | .string _ | .variable _ | .parameter _ => false

/-- How a typed value is written in a document: as its text, except for the floating-point values
that are not finite, which have spellings of their own there. -/
def bareText : Scalar → String
  | .float x =>
    if x.isNaN then ".nan"
    else if x.isInfinite then (if x.isNegative then "-.inf" else ".inf")
    else (Scalar.float x).text
  | scalar => scalar.text

end Scalar

end AzurePipelines
