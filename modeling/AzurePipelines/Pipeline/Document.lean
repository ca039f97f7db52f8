import AzurePipelines.Pipeline.Job
import AzurePipelines.Pipeline.Trigger

/-!
# Documents

A document is a pipeline of jobs, a pipeline of stages, or a template: declared parameters with one
list of items.  Both kinds of pipelines start with the same settings.
-/

namespace AzurePipelines

/-! ## Declared parameters -/

/-- The type of a declared parameter. -/
inductive ParameterKind where
  | string
  | number
  | boolean
  | object
  | step
  | stepList
  | job
  | jobList
  | stage
  | stageList
deriving DecidableEq, Repr

namespace ParameterKind

def text : ParameterKind → String
  | string => "string"
  | number => "number"
  | boolean => "boolean"
  | object => "object"
  | step => "step"
  | stepList => "stepList"
  | job => "job"
  | jobList => "jobList"
  | stage => "stage"
  | stageList => "stageList"

def all : List ParameterKind :=
  [string, number, boolean, object, step, stepList, job, jobList, stage, stageList]

/-- The kind that is written as the text. -/
def ofText? (text : String) : Option ParameterKind := all.find? (·.text == text)

theorem ofText?_text (kind : ParameterKind) : ofText? kind.text = some kind := by
  cases kind <;> rfl

end ParameterKind

/-- The declaration of a parameter of a pipeline or template. -/
structure DeclaredParameter where
  name : String
  displayName : Option String
  kind : ParameterKind
  default : Option Value
  /-- The values that the parameter may have; none are stated if it may have any. -/
  values : List Value

/-- The reference to a declared parameter. -/
def DeclaredParameter.reference (p : DeclaredParameter) :
    Except ReferenceError ParameterReference := ParameterReference.parse p.name

/-! ## Shapes of documents -/

/-- What stands above the jobs or stages of a pipeline. -/
structure Preamble where
  name : Option String
  trigger : Option Trigger
  pr : Option PrTrigger
  schedules : List Schedule
  parameters : List DeclaredParameter
  variableItems : List (ListItem Variable)
  pool : Option Pool

/-- The list of a template. -/
inductive TemplateBody where
  | steps (items : List (ListItem Step))
  | jobs (items : List (ListItem Job))
  | stages (items : List (ListItem Stage))
  | variableItems (items : List (ListItem Variable))

/-- A pipeline or template. -/
inductive Document where
  /-- Jobs that run in one stage, which is not written. -/
  | singleStage (preamble : Preamble) (jobs : List (ListItem Job))
  | multiStage (preamble : Preamble) (stages : List (ListItem Stage))
  | template (parameters : List DeclaredParameter) (body : TemplateBody)

/-- The short name of the shape of a document. -/
def Document.shape : Document → String
  | singleStage .. => "single-stage"
  | multiStage .. => "multi-stage"
  | template _ (.steps _) => "step-template"
  | template _ (.jobs _) => "job-template"
  | template _ (.stages _) => "stage-template"
  | template _ (.variableItems _) => "variable-template"

end AzurePipelines
