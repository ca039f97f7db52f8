import AzurePipelines.Pipeline.Sections

/-!
# Faults of documents

A document is at fault where a text that has to be there is blank, where a list that has to hold
something is empty, where inputs are given to a step that takes none, where a pool cannot be found,
and where a fragment stands in a list of another kind.  `Document.faults` lists all faults in the
order in which the document is read, each with the path to the node that is at fault; a node comes
before the nodes below it.
-/

namespace AzurePipelines

/-! ## Paths -/

/-- One step down the tree of a document. -/
inductive PathStep where
  /-- Into a field. -/
  | field (name : String)
  /-- To an entry of a list, in declared order. -/
  | index (i : Nat)
  /-- Into the first branch of a block. -/
  | ifBranch
  /-- Into a further branch with a condition. -/
  | elseIfBranch (k : Nat)
  /-- Into the branch without a condition. -/
  | elseBranch
  /-- To an entry of a fragment. -/
  | fragmentEntry (j : Nat)
deriving DecidableEq, Repr

/-- The steps from the document down to a node. -/
abbrev TreePath := List PathStep

def PathStep.text : PathStep → String
  | .field name => "." ++ name
  | .index i => "[" ++ toString i ++ "]"
  | .ifBranch => ".if"
  | .elseIfBranch k => ".elseif[" ++ toString k ++ "]"
  | .elseBranch => ".else"
  | .fragmentEntry j => ".fragment[" ++ toString j ++ "]"

/-- The path as text, without a dot in front, e.g. `jobs[0].steps[2].else[0]`. -/
def TreePath.text : TreePath → String
  | .field name :: rest => name ++ String.join (rest.map PathStep.text)
  | path => String.join (path.map PathStep.text)

/-! ## Causes -/

/-- The texts that must not be blank. -/
inductive RequiredText where
  | parameterName
  | cronExpression
  | templatePath
  | variableName
  | variableGroupName
  | taskName
  | scriptBody
  | checkoutRepository
  | downloadSource
  | publishPath
  | jobName
  | stageName
  | poolName
deriving DecidableEq, Repr

def RequiredText.name : RequiredText → String
  | parameterName => "parameter name"
  | cronExpression => "schedule cron expression"
  | templatePath => "template path"
  | variableName => "variable name"
  | variableGroupName => "variable group name"
  | taskName => "task name"
  | scriptBody => "script body"
  | checkoutRepository => "checkout repository"
  | downloadSource => "download source"
  | publishPath => "publish path"
  | jobName => "job name"
  | stageName => "stage name"
  | poolName => "pool name"

/-- What is wrong with a node. -/
inductive Cause where
  | blank (text : RequiredText)
  | inputsOutsideTask (actionKey : String)
  | jobWithoutSteps (job : String)
  | stageWithoutJobs (stage : String)
  | pipelineWithoutJobs
  | pipelineWithoutStages
  | anonymousPool
  | foreignFragment (fragment list : ItemKind)
deriving DecidableEq, Repr

def Cause.message : Cause → String
  | blank text => text.name ++ " is empty"
  | inputsOutsideTask key => "inputs are only valid on task steps, not '" ++ key ++ "'"
  | jobWithoutSteps job => "job '" ++ job ++ "' has no steps"
  | stageWithoutJobs stage => "stage '" ++ stage ++ "' has no jobs"
  | pipelineWithoutJobs => "pipeline has no jobs"
  | pipelineWithoutStages => "pipeline has no stages"
  | anonymousPool => "pool has neither a name nor a vmImage"
  | foreignFragment fragment list =>
    "a " ++ fragment.name ++ " fragment cannot be placed in a " ++ list.listKey ++ " list"

/-- A node that is at fault, and why. -/
structure Fault where
  path : TreePath
  cause : Cause
deriving DecidableEq, Repr

namespace Fault

/-- A fault of the node itself. -/
def here (cause : Cause) : Fault := ⟨[], cause⟩

/-- A misplaced item is not supported; all other faults violate the rules of a node. -/
def isUnsupported (f : Fault) : Bool :=
  match f.cause with
  | .foreignFragment .. => true
  | _ => false

def message (f : Fault) : String :=
  (if f.isUnsupported then "unsupported item" else "schema violation") ++
    " at '" ++ TreePath.text f.path ++ "': " ++ f.cause.message

end Fault

/-- The faults of a node, seen from the node above it. -/
def below (step : PathStep) (faults : List Fault) : List Fault :=
  faults.map fun f => { f with path := step :: f.path }

/-- The fault of a text that must not be blank. -/
def required (what : RequiredText) (text : String) : List Fault :=
  if Text.allBlank text.toList then [.here (.blank what)] else []

/-! ## Lists -/

/-- A type of items that can be at fault. -/
class Checked (α : Type) extends Listed α where
  faults : α → List Fault

section Lists

variable {α : Type} [Checked α]

mutual

def ListItem.faults : ListItem α → List Fault
  | .item value => Checked.faults value
  | .block block => block.faults
  | .template reference => required .templatePath reference.path
  | .fragment items => listFaults .fragmentEntry 0 items
  | .foreignFragment kind _ => [.here (.foreignFragment kind (Listed.kind α))]

/-- The faults of the entries of a list, the first of which is reached by `step start`. -/
def listFaults (step : Nat → PathStep) (start : Nat) : List (ListItem α) → List Fault
  | [] => []
  | entry :: rest => below (step start) entry.faults ++ listFaults step (start + 1) rest

def Conditioned.faults : Conditioned α → List Fault
  | ⟨_, items, elseIfs, elseItems⟩ =>
    below .ifBranch (listFaults .index 0 items) ++ branchFaults 0 elseIfs ++
      elseFaults elseItems

/-- The faults of branches, the first of which has the number `start`. -/
def branchFaults (start : Nat) : List (Branch α) → List Fault
  | [] => []
  | branch :: rest =>
    below (.elseIfBranch start) branch.faults ++ branchFaults (start + 1) rest

def Branch.faults : Branch α → List Fault
  | ⟨_, items⟩ => listFaults .index 0 items

def elseFaults : Option (List (ListItem α)) → List Fault
  | none => []
  | some items => below .elseBranch (listFaults .index 0 items)

end

/-- The faults of a list in a field. -/
def fieldFaults (name : String) (items : List (ListItem α)) : List Fault :=
  below (.field name) (listFaults .index 0 items)

end Lists

/-! ## Items -/

def Variable.faults : Variable → List Fault
  | .value name _ _ => required .variableName name
  | .group name => required .variableGroupName name

instance : Checked Variable := ⟨Variable.faults⟩

def StepAction.faults : StepAction → List Fault
  | .task name => required .taskName name
  | .script s | .bash s => required .scriptBody s.contents
  | .pwsh s | .powershell s => required .scriptBody s.contents
  | .checkout c =>
    match c.source with
    | .repository name => required .checkoutRepository name
    | .selfRepository | .nothing => []
  | .download d => required .downloadSource d.source
  | .publish p => required .publishPath p.path

def Step.faults (s : Step) : List Fault :=
  s.action.faults ++
    if s.inputs.isEmpty || s.action.isTask then []
    else [.here (.inputsOutsideTask s.action.key)]

instance : Checked Step := ⟨Step.faults⟩

def Pool.faults : Pool → List Fault
  | .named name => required .poolName name
  | .hosted name vmImage _ =>
    if name.isNone && vmImage.isNone then [.here .anonymousPool] else []

/-- The faults of a pool that is given. -/
def poolFaults (pool : Option Pool) : List Fault :=
  below (.field "pool") ((pool.map Pool.faults).getD [])

def Job.faults (j : Job) : List Fault :=
  required .jobName j.name ++
    (if j.steps.isEmpty then [.here (.jobWithoutSteps j.name)] else []) ++
    poolFaults j.pool ++ fieldFaults "variables" j.variableItems ++ fieldFaults "steps" j.steps

instance : Checked Job := ⟨Job.faults⟩

def Stage.faults (s : Stage) : List Fault :=
  required .stageName s.name ++
    (if s.jobs.isEmpty then [.here (.stageWithoutJobs s.name)] else []) ++
    poolFaults s.pool ++ fieldFaults "variables" s.variableItems ++ fieldFaults "jobs" s.jobs

instance : Checked Stage := ⟨Stage.faults⟩

/-! ## Documents -/

/-- The faults of plain values in a field, the first of which has the number `start`. -/
def valuesFaults {β : Type} (faults : β → List Fault) (start : Nat) : List β → List Fault
  | [] => []
  | value :: rest => below (.index start) (faults value) ++ valuesFaults faults (start + 1) rest

def Schedule.faults (s : Schedule) : List Fault := required .cronExpression s.cron

def DeclaredParameter.faults (p : DeclaredParameter) : List Fault :=
  required .parameterName p.name

def parametersFaults (parameters : List DeclaredParameter) : List Fault :=
  below (.field "parameters") (valuesFaults DeclaredParameter.faults 0 parameters)

def Preamble.faults (p : Preamble) : List Fault :=
  below (.field "schedules") (valuesFaults Schedule.faults 0 p.schedules) ++
    parametersFaults p.parameters ++ fieldFaults "variables" p.variableItems ++ poolFaults p.pool

def TemplateBody.faults : TemplateBody → List Fault
  | .steps items => fieldFaults "steps" items
  | .jobs items => fieldFaults "jobs" items
  | .stages items => fieldFaults "stages" items
  | .variableItems items => fieldFaults "variables" items

/-- All faults of a document, in the order in which it is read. -/
def Document.faults : Document → List Fault
  | .singleStage preamble jobs =>
    (if jobs.isEmpty then [⟨[.field "jobs"], .pipelineWithoutJobs⟩] else []) ++
      preamble.faults ++ fieldFaults "jobs" jobs
  | .multiStage preamble stages =>
    (if stages.isEmpty then [⟨[.field "stages"], .pipelineWithoutStages⟩] else []) ++
      preamble.faults ++ fieldFaults "stages" stages
  | .template parameters body => parametersFaults parameters ++ body.faults

end AzurePipelines
