import AzurePipelines.Pipeline.Document

/-!
# Documents as nodes

`Document.sections` is the document as it is written: its top-level keys with their nodes.  Keys of
a mapping stand in a fixed order; a field that is absent, a flag that is off and a collection that
is empty have no key, where the field does not mean something by being empty.  Of every branch of a
block comes one mapping with a single key, and of a fragment its items.
-/

namespace AzurePipelines

open Yaml (Node)

/-- The entries of a mapping node. -/
abbrev Fields := List (String × Node)

namespace Fields

/-! ## Fields -/

def node (key : String) (n : Node) : Fields := [(key, n)]

def text (key value : String) : Fields := [(key, .text value)]

def optionalNode (key : String) (n : Option Node) : Fields :=
  match n with
  | some n => [(key, n)]
  | none => []

def optionalText (key : String) (value : Option String) : Fields :=
  optionalNode key (value.map .text)

def optionalBoolean (key : String) (value : Option Bool) : Fields :=
  optionalNode key (value.map fun b => .scalar (.boolean b))

def optionalNumber (key : String) (value : Option Nat) : Fields :=
  optionalNode key (value.map fun (n : Nat) => .scalar (.integer n))

/-- A key that is present only where the flag is on. -/
def flag (key : String) (value : Bool) : Fields :=
  optionalBoolean key (if value then some true else none)

/-- A sequence, unless it is empty. -/
def items (key : String) (nodes : List Node) : Fields :=
  if nodes.isEmpty then [] else [(key, .sequence nodes)]

/-- A mapping, unless it is empty. -/
def map (key : String) (m : OrderedMap Value) : Fields :=
  if m.isEmpty then [] else [(key, m.node)]

end Fields

/-! ## Lists -/

/-- A type whose values can be the items of a list. -/
class Listed (α : Type) where
  kind : ItemKind
  fields : α → Fields

/-- The key of the branch of a block that is taken where a condition holds. -/
def ifKey (c : Condition) : String := "$\x7b\x7b if " ++ c.text ++ " \x7d\x7d"

/-- The key of a further branch with a condition. -/
def elseIfKey (c : Condition) : String := "$\x7b\x7b elseif " ++ c.text ++ " \x7d\x7d"

/-- The key of the branch without a condition. -/
def elseKey : String := "$\x7b\x7b else \x7d\x7d"

def TemplateReference.node (t : TemplateReference) : Node :=
  .mapping (Fields.text "template" t.path ++ Fields.map "parameters" t.parameters)

section Lists

variable {α : Type} [Listed α]

mutual

/-- The nodes that an entry of a list is written as. -/
def ListItem.nodes : ListItem α → List Node
  | .item value => [.mapping (Listed.fields value)]
  | .block block => block.nodes
  | .template reference => [reference.node]
  | .fragment items => listNodes items
  | .foreignFragment _ _ => []

/-- The nodes of all entries of a list, in order. -/
def listNodes : List (ListItem α) → List Node
  | [] => []
  | entry :: rest => entry.nodes ++ listNodes rest

/-- One mapping with a single key for every branch. -/
def Conditioned.nodes : Conditioned α → List Node
  | ⟨condition, items, elseIfs, elseItems⟩ =>
    .mapping [(ifKey condition, .sequence (listNodes items))] ::
      (branchNodes elseIfs ++ elseNodes elseItems)

def branchNodes : List (Branch α) → List Node
  | [] => []
  | branch :: rest => branch.node :: branchNodes rest

def Branch.node : Branch α → Node
  | ⟨condition, items⟩ => .mapping [(elseIfKey condition, .sequence (listNodes items))]

def elseNodes : Option (List (ListItem α)) → List Node
  | none => []
  | some items => [.mapping [(elseKey, .sequence (listNodes items))]]

end

/-- A list below its key, unless nothing is written of it. -/
def Fields.list (key : String) (items : List (ListItem α)) : Fields :=
  Fields.items key (listNodes items)

/-- A list below its key, also where nothing is written of it. -/
def Fields.ownList (key : String) (items : List (ListItem α)) : Fields :=
  Fields.node key (.sequence (listNodes items))

end Lists

/-! ## Variables and steps -/

def Variable.fields : Variable → Fields
  | .value name content readonly =>
    Fields.text "name" name ++ Fields.node "value" (.scalar content) ++
      Fields.flag "readonly" readonly
  | .group name => Fields.text "group" name

instance : Listed Variable := ⟨.variable, Variable.fields⟩

def CheckoutSource.text : CheckoutSource → String
  | .selfRepository => "self"
  | .nothing => "none"
  | .repository name => name

def Submodules.node : Submodules → Node
  | .direct => .scalar (.boolean true)
  | .recursive => .text "recursive"

/-- The text that stands at the key of an action. -/
def StepAction.text : StepAction → String
  | .task name => name
  | .script s | .bash s => s.contents
  | .pwsh s | .powershell s => s.contents
  | .checkout c => c.source.text
  | .download d => d.source
  | .publish p => p.path

def ScriptStep.fields (s : ScriptStep) : Fields :=
  Fields.optionalText "workingDirectory" s.workingDirectory ++
    Fields.flag "failOnStderr" s.failOnStderr

def PowershellStep.fields (s : PowershellStep) : Fields :=
  s.toScriptStep.fields ++ Fields.optionalText "errorActionPreference" s.errorActionPreference

def CheckoutStep.fields (c : CheckoutStep) : Fields :=
  Fields.optionalBoolean "clean" c.clean ++ Fields.optionalNumber "fetchDepth" c.fetchDepth ++
    Fields.optionalBoolean "lfs" c.lfs ++
    Fields.optionalNode "submodules" (c.submodules.map Submodules.node) ++
    Fields.optionalText "path" c.path ++
    Fields.optionalBoolean "persistCredentials" c.persistCredentials

def DownloadStep.fields (d : DownloadStep) : Fields :=
  Fields.optionalText "artifact" d.artifact ++ Fields.optionalText "patterns" d.patterns ++
    Fields.optionalText "path" d.path

/-- The settings that only steps of this action have. -/
def StepAction.fields : StepAction → Fields
  | .task _ => []
  | .script s | .bash s => s.fields
  | .pwsh s | .powershell s => s.fields
  | .checkout c => c.fields
  | .download d => d.fields
  | .publish p => Fields.optionalText "artifact" p.artifact

def Step.fields (s : Step) : Fields :=
  Fields.text s.action.key s.action.text ++ Fields.optionalText "displayName" s.displayName ++
    Fields.optionalText "name" s.name ++
    Fields.optionalText "condition" (s.condition.map Condition.text) ++
    Fields.flag "continueOnError" s.continueOnError ++
    Fields.optionalBoolean "enabled" (if s.enabled then none else some false) ++
    Fields.optionalNumber "timeoutInMinutes" s.timeoutInMinutes ++
    Fields.optionalNumber "retryCountOnTaskFailure" s.retryCountOnTaskFailure ++
    Fields.map "inputs" s.inputs ++ s.action.fields ++ Fields.map "env" s.env

instance : Listed Step := ⟨.step, Step.fields⟩

/-! ## Jobs and stages -/

/-- A sequence of texts. -/
def textItems (texts : List String) : List Node := texts.map .text

def Pool.node : Pool → Node
  | .named name => .text name
  | .hosted name vmImage demands =>
    .mapping (Fields.optionalText "name" name ++ Fields.optionalText "vmImage" vmImage ++
      Fields.items "demands" (textItems demands))

def DependsOn.node? : DependsOn → Option Node
  | .previous => none
  | .nothing => some (.sequence [])
  | .single name => some (.text name)
  | .multiple names => some (.sequence (textItems names))

def Strategy.node (s : Strategy) : Node :=
  .mapping (Fields.map "matrix" s.matrix ++ Fields.optionalNumber "parallel" s.parallel ++
    Fields.optionalNumber "maxParallel" s.maxParallel)

def WorkspaceClean.node (w : WorkspaceClean) : Node := .mapping (Fields.text "clean" w.text)

def Job.fields (j : Job) : Fields :=
  Fields.text "job" j.name ++ Fields.optionalText "displayName" j.displayName ++
    Fields.optionalNode "dependsOn" j.dependsOn.node? ++
    Fields.optionalText "condition" (j.condition.map Condition.text) ++
    Fields.flag "continueOnError" j.continueOnError ++
    Fields.optionalNumber "timeoutInMinutes" j.timeoutInMinutes ++
    Fields.optionalNumber "cancelTimeoutInMinutes" j.cancelTimeoutInMinutes ++
    Fields.optionalNode "strategy" (j.strategy.map Strategy.node) ++
    Fields.optionalNode "pool" (j.pool.map Pool.node) ++
    Fields.optionalText "container" j.container ++
    Fields.optionalNode "workspace" (j.workspace.map WorkspaceClean.node) ++
    Fields.list "variables" j.variableItems ++ Fields.ownList "steps" j.steps

instance : Listed Job := ⟨.job, Job.fields⟩

def Stage.fields (s : Stage) : Fields :=
  Fields.text "stage" s.name ++ Fields.optionalText "displayName" s.displayName ++
    Fields.optionalNode "dependsOn" s.dependsOn.node? ++
    Fields.optionalText "condition" (s.condition.map Condition.text) ++
    Fields.optionalNode "pool" (s.pool.map Pool.node) ++
    Fields.list "variables" s.variableItems ++ Fields.ownList "jobs" s.jobs

instance : Listed Stage := ⟨.stage, Stage.fields⟩

/-! ## Triggers -/

def Filter.node (f : Filter) : Node :=
  .mapping (Fields.items "include" (textItems f.included) ++
    Fields.items "exclude" (textItems f.excluded))

def Trigger.node : Trigger → Node
  | .never => .text "none"
  | .pushes batch branches paths tags =>
    .mapping (Fields.optionalBoolean "batch" batch ++
      Fields.optionalNode "branches" (branches.map Filter.node) ++
      Fields.optionalNode "paths" (paths.map Filter.node) ++
      Fields.optionalNode "tags" (tags.map Filter.node))

def PrTrigger.node : PrTrigger → Node
  | .never => .text "none"
  | .pullRequests autoCancel branches paths drafts =>
    .mapping (Fields.optionalBoolean "autoCancel" autoCancel ++
      Fields.optionalNode "branches" (branches.map Filter.node) ++
      Fields.optionalNode "paths" (paths.map Filter.node) ++
      Fields.optionalBoolean "drafts" drafts)

def Schedule.node (s : Schedule) : Node :=
  .mapping (Fields.text "cron" s.cron ++ Fields.optionalText "displayName" s.displayName ++
    Fields.node "branches" s.branches.node ++ Fields.flag "always" s.always ++
    Fields.flag "batch" s.batch)

/-! ## Documents -/

def DeclaredParameter.node (p : DeclaredParameter) : Node :=
  .mapping (Fields.text "name" p.name ++ Fields.optionalText "displayName" p.displayName ++
    Fields.text "type" p.kind.text ++ Fields.optionalNode "default" (p.default.map Value.node) ++
    Fields.items "values" (p.values.map Value.node))

def Preamble.fields (p : Preamble) : Fields :=
  Fields.optionalText "name" p.name ++
    Fields.optionalNode "trigger" (p.trigger.map Trigger.node) ++
    Fields.optionalNode "pr" (p.pr.map PrTrigger.node) ++
    Fields.items "schedules" (p.schedules.map Schedule.node) ++
    Fields.items "parameters" (p.parameters.map DeclaredParameter.node) ++
    Fields.list "variables" p.variableItems ++ Fields.optionalNode "pool" (p.pool.map Pool.node)

def TemplateBody.fields : TemplateBody → Fields
  | .steps items => Fields.ownList "steps" items
  | .jobs items => Fields.ownList "jobs" items
  | .stages items => Fields.ownList "stages" items
  | .variableItems items => Fields.ownList "variables" items

/-- The top-level keys of a document with their nodes. -/
def Document.sections : Document → Fields
  | .singleStage preamble jobs => preamble.fields ++ Fields.ownList "jobs" jobs
  | .multiStage preamble stages => preamble.fields ++ Fields.ownList "stages" stages
  | .template parameters body =>
    Fields.items "parameters" (parameters.map DeclaredParameter.node) ++ body.fields

end AzurePipelines
