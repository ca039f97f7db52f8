import AzurePipelines.Pipeline.Step

/-!
# Jobs and stages

A job runs its steps on an agent of a pool; a stage is a group of jobs.
-/

namespace AzurePipelines

/-- Where a job finds its agent. -/
inductive Pool where
  | named (name : String)
  | hosted (name vmImage : Option String) (demands : List String)
deriving DecidableEq, Repr

/-- The jobs or stages that have to end before this one starts. -/
inductive DependsOn where
  /-- Not stated: the one above in its list. -/
  | previous
  /-- Stated to be none. -/
  | nothing
  | single (name : String)
  | multiple (names : List String)
deriving DecidableEq, Repr

/-- How often a job runs, and with which variables. -/
structure Strategy where
  /-- The legs of a matrix, as a rule each with a map of its variables. -/
  matrix : OrderedMap Value := .empty
  parallel : Option Nat := none
  maxParallel : Option Nat := none

/-- Sets the variables of a leg. -/
def Strategy.withLeg (s : Strategy) (name : String) (leg : OrderedMap Value) : Strategy :=
  { s with matrix := s.matrix.insert name (.mapping leg) }

/-- What is cleaned in the workspace before a job. -/
inductive WorkspaceClean where
  | outputs
  | resources
  | all
deriving DecidableEq, Repr

def WorkspaceClean.text : WorkspaceClean → String
  | outputs => "outputs"
  | resources => "resources"
  | all => "all"

structure Job where
  name : String
  displayName : Option String := none
  dependsOn : DependsOn := .previous
  condition : Option Condition := none
  continueOnError : Bool := false
  timeoutInMinutes : Option Nat := none
  cancelTimeoutInMinutes : Option Nat := none
  strategy : Option Strategy := none
  pool : Option Pool := none
  container : Option String := none
  workspace : Option WorkspaceClean := none
  variableItems : List (ListItem Variable) := []
  steps : List (ListItem Step) := []

structure Stage where
  name : String
  displayName : Option String := none
  dependsOn : DependsOn := .previous
  condition : Option Condition := none
  pool : Option Pool := none
  variableItems : List (ListItem Variable) := []
  jobs : List (ListItem Job) := []

end AzurePipelines
