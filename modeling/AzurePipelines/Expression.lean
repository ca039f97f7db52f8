import AzurePipelines.Decimal.Positional
import AzurePipelines.Reference
import AzurePipelines.Text.Quoted

/-!
# Expressions and conditions

An `Expression` is a call of a function on operands, or a hand-written text.  It is never evaluated:
`Expression.condition` renders it to the `Condition` that a pipeline holds, which is text.  The
functions that build expressions follow the questions a pipeline asks: which branch or tag is built,
what triggered the run, how the steps before have ended.
-/

namespace AzurePipelines

/-! ## Trees -/

mutual

/-- An argument of a function. -/
inductive Operand where
  | literal (text : String)
  | number (x : Binary64)
  | integer (n : Int)
  | boolean (b : Bool)
  | variable (name : String)
  | parameter (reference : ParameterReference)
  | nested (expression : Expression)

/-- A call of a function, or a text taken as it is. -/
inductive Expression where
  | raw (text : String)
  | call (function : String) (arguments : List Operand)

end

/-! ## Rendering -/

/-- A number as an operand: zero has no sign. -/
def numberText (x : Binary64) : List Char := if x.isZero then ['0'] else x.positionalText

mutual

def Operand.chars : Operand → List Char
  | .literal text => Text.quoted text.toList
  | .number x => numberText x
  | .integer n => (toString n).toList
  | .boolean b => if b then "true".toList else "false".toList
  | .variable name => "variables[".toList ++ Text.quoted name.toList ++ [']']
  | .parameter reference => reference.expression.toList
  | .nested expression => expression.chars

def Expression.chars : Expression → List Char
  | .raw text => text.toList
  | .call function arguments => function.toList ++ '(' :: argumentChars arguments ++ [')']

/-- The arguments of a call, with a comma and a space between two. -/
def argumentChars : List Operand → List Char
  | [] => []
  | [operand] => operand.chars
  | operand :: next :: rest => operand.chars ++ ',' :: ' ' :: argumentChars (next :: rest)

end

/-- A rendered expression: the condition of a branch, or of a step, job or stage. -/
structure Condition where
  text : String
deriving DecidableEq, Repr

def Expression.condition (e : Expression) : Condition := ⟨String.ofList e.chars⟩

namespace Expression

/-! ## Comparisons and functions of text -/

def equals (left right : Operand) : Expression := call "eq" [left, right]

def notEquals (left right : Operand) : Expression := call "ne" [left, right]

def contains (haystack needle : Operand) : Expression := call "contains" [haystack, needle]

def startsWith (value beginning : Operand) : Expression := call "startsWith" [value, beginning]

def endsWith (value ending : Operand) : Expression := call "endsWith" [value, ending]

/-- The needle is one of the candidates. -/
def isIn (needle : Operand) (candidates : List Operand) : Expression :=
  call "in" (needle :: candidates)

def variableEquals (name : String) (value : Operand) : Expression :=
  equals (.variable name) value

def variableNotEquals (name : String) (value : Operand) : Expression :=
  notEquals (.variable name) value

/-! ## What is built, and why -/

/-- The variable that holds the full name of the branch or tag that is built. -/
def sourceBranch : Operand := .variable "Build.SourceBranch"

/-- The variable that tells what triggered the run. -/
def buildReason : Operand := .variable "Build.Reason"

/-- A full name is taken as it is; a short one goes below `directory`. -/
def fullName (directory name : String) : String :=
  if "refs/".toList.isPrefixOf name.toList then name else directory ++ name

def isBranch (branch : String) : Expression :=
  equals sourceBranch (.literal (fullName "refs/heads/" branch))

def isNotBranch (branch : String) : Expression :=
  notEquals sourceBranch (.literal (fullName "refs/heads/" branch))

def isTag (tag : String) : Expression :=
  equals sourceBranch (.literal (fullName "refs/tags/" tag))

/-- The run builds some tag. -/
def isTagBuild : Expression := startsWith sourceBranch (.literal "refs/tags/")

def isPullRequest : Expression := equals buildReason (.literal "PullRequest")

def isNotPullRequest : Expression := notEquals buildReason (.literal "PullRequest")

/-! ## How the steps before have ended -/

def succeeded : Expression := call "succeeded" []

def failed : Expression := call "failed" []

def canceled : Expression := call "canceled" []

def always : Expression := call "always" []

def succeededOrFailed : Expression := call "succeededOrFailed" []

/-! ## Combinations -/

/-- A function of one or more conditions; of a single one there is nothing to combine. -/
def combine (function : String) (first : Expression) (rest : List Expression) : Expression :=
  if rest.isEmpty then first else call function ((first :: rest).map .nested)

def all (first : Expression) (rest : List Expression) : Expression := combine "and" first rest

def any (first : Expression) (rest : List Expression) : Expression := combine "or" first rest

def xor (left right : Expression) : Expression := call "xor" [.nested left, .nested right]

def not (e : Expression) : Expression := call "not" [.nested e]

/-- Both conditions. -/
def andAlso (left right : Expression) : Expression := all left [right]

/-- One condition or the other. -/
def orElse (left right : Expression) : Expression := any left [right]

end Expression

example : (Expression.isBranch "net-6.0").condition =
    ⟨"eq(variables['Build.SourceBranch'], 'refs/heads/net-6.0')"⟩ := by decide +kernel
example : (Expression.variableEquals "Owner" (.literal "O'Brien")).condition =
    ⟨"eq(variables['Owner'], 'O''Brien')"⟩ := by decide +kernel
example : (Expression.all .isTagBuild []).condition = Expression.isTagBuild.condition := rfl

end AzurePipelines
