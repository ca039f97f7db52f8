import AzurePipelines.Pipeline.Item

/-!
# Variables and steps

The items that lists of variables and lists of steps hold.  A step has one action and settings that
steps of every action share.
-/

namespace AzurePipelines

/-! ## Variables -/

/-- An entry of a list of variables. -/
inductive Variable where
  | value (name : String) (value : Scalar) (readonly : Bool)
  /-- All variables of a group that is kept elsewhere. -/
  | group (name : String)
deriving DecidableEq

/-- The name of the variable or of the group. -/
def Variable.name : Variable → String
  | .value name _ _ => name
  | .group name => name

/-! ## Actions -/

structure ScriptStep where
  contents : String
  workingDirectory : Option String
  failOnStderr : Bool
deriving DecidableEq, Repr

structure PowershellStep extends ScriptStep where
  errorActionPreference : Option String
deriving DecidableEq, Repr

/-- What a checkout brings into the workspace. -/
inductive CheckoutSource where
  | selfRepository
  | nothing
  | repository (name : String)
deriving DecidableEq, Repr

/-- How far a checkout follows submodules. -/
inductive Submodules where
  | direct
  | recursive
deriving DecidableEq, Repr

structure CheckoutStep where
  source : CheckoutSource
  clean : Option Bool
  fetchDepth : Option Nat
  lfs : Option Bool
  submodules : Option Submodules
  path : Option String
  persistCredentials : Option Bool
deriving DecidableEq, Repr

structure DownloadStep where
  source : String
  artifact : Option String
  patterns : Option String
  path : Option String
deriving DecidableEq, Repr

structure PublishStep where
  path : String
  artifact : Option String
deriving DecidableEq, Repr

/-- What a step does. -/
inductive StepAction where
  | task (name : String)
  | script (script : ScriptStep)
  | bash (script : ScriptStep)
  | pwsh (script : PowershellStep)
  | powershell (script : PowershellStep)
  | checkout (checkout : CheckoutStep)
  | download (download : DownloadStep)
  | publish (publish : PublishStep)
deriving DecidableEq, Repr

namespace StepAction

/-- The key that introduces a step of this action. -/
def key : StepAction → String
  | task _ => "task"
  | script _ => "script"
  | bash _ => "bash"
  | pwsh _ => "pwsh"
  | powershell _ => "powershell"
  | checkout _ => "checkout"
  | download _ => "download"
  | publish _ => "publish"

def isTask : StepAction → Bool
  | task _ => true
  | _ => false

/-- Changes the settings that all scripts share; other actions stay as they are. -/
def mapScript (f : ScriptStep → ScriptStep) : StepAction → StepAction
  | script s => script (f s)
  | bash s => bash (f s)
  | pwsh s => pwsh { s with toScriptStep := f s.toScriptStep }
  | powershell s => powershell { s with toScriptStep := f s.toScriptStep }
  | action => action

end StepAction

/-! ## Steps -/

/-- One step of a job. -/
structure Step where
  action : StepAction
  displayName : Option String := none
  name : Option String := none
  condition : Option Condition := none
  continueOnError : Bool := false
  enabled : Bool := true
  timeoutInMinutes : Option Nat := none
  retryCountOnTaskFailure : Option Nat := none
  /-- Inputs of a task; no other action takes any. -/
  inputs : OrderedMap Value := .empty
  env : OrderedMap Value := .empty

namespace Step

def task (name : String) : Step := { action := .task name }

/-- Sets an input. -/
def withInput (s : Step) (name : String) (value : Value) : Step :=
  { s with inputs := s.inputs.insert name value }

/-- Sets a variable of the environment. -/
def withEnv (s : Step) (name : String) (value : Value) : Step :=
  { s with env := s.env.insert name value }

/-- Sets the working directory of a script; other actions stay as they are. -/
def withWorkingDirectory (s : Step) (directory : String) : Step :=
  { s with
    action := s.action.mapScript fun script => { script with workingDirectory := some directory } }

/-- Lets a script fail if it writes errors; other actions stay as they are. -/
def failOnStderr (s : Step) : Step :=
  { s with action := s.action.mapScript fun script => { script with failOnStderr := true } }

/-- The task that installs a version of the .NET SDK. -/
def useDotnetSdk (version : Scalar) : Step :=
  ((task "UseDotNet@2").withInput "packageType" (.text "sdk")).withInput "version" (.scalar version)

end Step

end AzurePipelines
