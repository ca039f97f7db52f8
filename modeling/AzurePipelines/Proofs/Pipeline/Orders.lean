import AzurePipelines.Proofs.Pipeline.Fields
import Mathlib

/-!
# Orders of keys

For every kind of mapping in a document there is one order of its keys, and whichever of its fields
are given, their keys are keys of that order and stand in it (`Fields.Follow`).  The orders are
those that documents promise to their readers, and records keep to them, except for one kind of
step: what downloads an artifact or patterns into a path has its path last, where the order has it
first (`Step.follow_item_iff`).
-/

namespace AzurePipelines

open Yaml (Node)

/-! ## Fields that follow an order -/

namespace Fields

/-- The keys in the order in which they are written. -/
def keys (fields : Fields) : List String := List.map Prod.fst fields

theorem keys_append (upper lower : Fields) : keys (upper ++ lower) = upper.keys ++ lower.keys :=
  List.map_append

/-- The keys of the fields are keys of the order, each at most once, and stand as they do there. -/
def Follow (fields : Fields) (order : List String) : Prop := fields.keys.Sublist order

theorem Follow.append {upper lower : Fields} {first second : List String}
    (h : upper.Follow first) (next : lower.Follow second) :
    Follow (upper ++ lower) (first ++ second) := by
  unfold Follow
  rw [keys_append]
  exact List.Sublist.append h next

theorem Follow.trans {fields : Fields} {order other : List String} (h : fields.Follow order)
    (within : order.Sublist other) : fields.Follow other := List.Sublist.trans h within

/-- Where an order has no key twice, the fields have none twice. -/
theorem Follow.nodup {fields : Fields} {order : List String} (h : fields.Follow order)
    (distinct : order.Nodup) : fields.keys.Nodup := List.Sublist.nodup h distinct

theorem Follow.mem {fields : Fields} {order : List String} (h : fields.Follow order) {key : String}
    {n : Node} (member : (key, n) ∈ fields) : key ∈ order :=
  List.Sublist.subset h (List.mem_map_of_mem member)

variable (key : String)

theorem follow_node (n : Node) : (Fields.node key n).Follow [key] := List.Sublist.refl _

theorem follow_text (value : String) : (Fields.text key value).Follow [key] := List.Sublist.refl _

theorem follow_optionalNode (given : Option Node) : (optionalNode key given).Follow [key] := by
  cases given with
  | none => exact List.nil_sublist _
  | some n => exact List.Sublist.refl _

theorem follow_optionalText (value : Option String) : (optionalText key value).Follow [key] :=
  follow_optionalNode key _

theorem follow_optionalBoolean (value : Option Bool) : (optionalBoolean key value).Follow [key] :=
  follow_optionalNode key _

theorem follow_optionalNumber (value : Option Nat) : (optionalNumber key value).Follow [key] :=
  follow_optionalNode key _

theorem follow_flag (value : Bool) : (flag key value).Follow [key] := follow_optionalNode key _

theorem follow_items (nodes : List Node) : (Fields.items key nodes).Follow [key] := by
  cases nodes with
  | nil => exact List.nil_sublist _
  | cons first others => exact List.Sublist.refl _

theorem follow_map (values : OrderedMap Value) : (Fields.map key values).Follow [key] := by
  unfold Fields.map
  split
  · exact List.nil_sublist _
  · exact List.Sublist.refl _

variable {α : Type} [Listed α]

theorem follow_list (entries : List (ListItem α)) : (Fields.list key entries).Follow [key] :=
  follow_items key _

theorem follow_ownList (entries : List (ListItem α)) : (Fields.ownList key entries).Follow [key] :=
  follow_node key _

end Fields

/-! ## The orders -/

namespace KeyOrder

/-- A pipeline: its settings, then what it lists. -/
def pipeline : List String :=
  ["name", "trigger", "pr", "schedules", "parameters", "variables", "pool", "jobs", "stages"]

/-- A template: what it declares, then what it lists. -/
def template : List String := ["parameters", "steps", "jobs", "stages", "variables"]

def templateReference : List String := ["template", "parameters"]

/-- An item of a list.  A step has one of the actions, then the settings that all of them share,
then those of each. -/
def item : ItemKind → List String
  | .variable => ["name", "value", "readonly", "group"]
  | .step =>
    ["task", "script", "bash", "pwsh", "powershell", "checkout", "download", "publish",
      "displayName", "name", "condition", "continueOnError", "enabled", "timeoutInMinutes",
      "retryCountOnTaskFailure", "inputs", "workingDirectory", "failOnStderr",
      "errorActionPreference", "clean", "fetchDepth", "lfs", "submodules", "path",
      "persistCredentials", "artifact", "patterns", "parameters", "env"]
  | .job =>
    ["job", "displayName", "dependsOn", "condition", "continueOnError", "timeoutInMinutes",
      "cancelTimeoutInMinutes", "strategy", "pool", "container", "workspace", "variables", "steps"]
  | .stage => ["stage", "displayName", "dependsOn", "condition", "pool", "variables", "jobs"]

def pool : List String := ["name", "vmImage", "demands"]

def trigger : List String := ["batch", "branches", "paths", "tags"]

def pr : List String := ["autoCancel", "branches", "paths", "drafts"]

def filter : List String := ["include", "exclude"]

def schedule : List String := ["cron", "displayName", "branches", "always", "batch"]

def parameter : List String := ["name", "displayName", "type", "default", "values"]

def strategy : List String := ["matrix", "parallel", "maxParallel"]

end KeyOrder

/-- No key of an item is that of a branch. -/
theorem KeyOrder.not_isBranchKey {kind : ItemKind} {key : String}
    (known : key ∈ KeyOrder.item kind) : ¬IsBranchKey key := by
  have plain : ∀ known ∈ KeyOrder.item kind, ¬IsBranchKey known := by cases kind <;> decide
  exact plain key known

/-! ## Fields of records -/

open Fields

theorem TemplateReference.follow_fields (t : TemplateReference) :
    (Fields.text "template" t.path ++ Fields.map "parameters" t.parameters).Follow
      KeyOrder.templateReference :=
  (follow_text "template" t.path).append (follow_map "parameters" t.parameters)

theorem Variable.follow_fields (v : Variable) : v.fields.Follow (KeyOrder.item .variable) := by
  cases v with
  | value name content readonly =>
    have given := ((follow_text "name" name).append (follow_node "value" (.scalar content))).append
      (follow_flag "readonly" readonly)
    exact given.trans (List.sublist_append_left _ ["group"])
  | group name =>
    apply (follow_text "group" name).trans
    exact List.sublist_append_right ["name", "value", "readonly"] _

theorem Filter.follow_fields (f : Filter) :
    (Fields.items "include" (textItems f.included) ++
      Fields.items "exclude" (textItems f.excluded)).Follow KeyOrder.filter :=
  (follow_items "include" _).append (follow_items "exclude" _)

theorem Trigger.follow_fields (batch : Option Bool) (branches paths tags : Option Filter) :
    (Fields.optionalBoolean "batch" batch ++
      Fields.optionalNode "branches" (branches.map Filter.node) ++
      Fields.optionalNode "paths" (paths.map Filter.node) ++
      Fields.optionalNode "tags" (tags.map Filter.node)).Follow KeyOrder.trigger :=
  (((follow_optionalBoolean "batch" batch).append (follow_optionalNode "branches" _)).append
    (follow_optionalNode "paths" _)).append (follow_optionalNode "tags" _)

theorem PrTrigger.follow_fields (autoCancel : Option Bool) (branches paths : Option Filter)
    (drafts : Option Bool) :
    (Fields.optionalBoolean "autoCancel" autoCancel ++
      Fields.optionalNode "branches" (branches.map Filter.node) ++
      Fields.optionalNode "paths" (paths.map Filter.node) ++
      Fields.optionalBoolean "drafts" drafts).Follow KeyOrder.pr :=
  (((follow_optionalBoolean "autoCancel" autoCancel).append
    (follow_optionalNode "branches" _)).append (follow_optionalNode "paths" _)).append
      (follow_optionalBoolean "drafts" drafts)

theorem Schedule.follow_fields (s : Schedule) :
    (Fields.text "cron" s.cron ++ Fields.optionalText "displayName" s.displayName ++
      Fields.node "branches" s.branches.node ++ Fields.flag "always" s.always ++
      Fields.flag "batch" s.batch).Follow KeyOrder.schedule :=
  ((((follow_text "cron" s.cron).append (follow_optionalText "displayName" s.displayName)).append
    (follow_node "branches" s.branches.node)).append (follow_flag "always" s.always)).append
      (follow_flag "batch" s.batch)

theorem DeclaredParameter.follow_fields (p : DeclaredParameter) :
    (Fields.text "name" p.name ++ Fields.optionalText "displayName" p.displayName ++
      Fields.text "type" p.kind.text ++ Fields.optionalNode "default" (p.default.map Value.node) ++
      Fields.items "values" (p.values.map Value.node)).Follow KeyOrder.parameter :=
  ((((follow_text "name" p.name).append (follow_optionalText "displayName" p.displayName)).append
    (follow_text "type" p.kind.text)).append (follow_optionalNode "default" _)).append
      (follow_items "values" _)

theorem Strategy.follow_fields (s : Strategy) :
    (Fields.map "matrix" s.matrix ++ Fields.optionalNumber "parallel" s.parallel ++
      Fields.optionalNumber "maxParallel" s.maxParallel).Follow KeyOrder.strategy :=
  ((follow_map "matrix" s.matrix).append (follow_optionalNumber "parallel" s.parallel)).append
    (follow_optionalNumber "maxParallel" s.maxParallel)

theorem Pool.follow_fields (name vmImage : Option String) (demands : List String) :
    (Fields.optionalText "name" name ++ Fields.optionalText "vmImage" vmImage ++
      Fields.items "demands" (textItems demands)).Follow KeyOrder.pool :=
  ((follow_optionalText "name" name).append (follow_optionalText "vmImage" vmImage)).append
    (follow_items "demands" _)

theorem Job.follow_fields (j : Job) : j.fields.Follow (KeyOrder.item .job) := by
  have named := ((follow_text "job" j.name).append
    (follow_optionalText "displayName" j.displayName)).append
      (follow_optionalNode "dependsOn" j.dependsOn.node?)
  have timed := (((named.append
    (follow_optionalText "condition" (j.condition.map Condition.text))).append
    (follow_flag "continueOnError" j.continueOnError)).append
    (follow_optionalNumber "timeoutInMinutes" j.timeoutInMinutes)).append
    (follow_optionalNumber "cancelTimeoutInMinutes" j.cancelTimeoutInMinutes)
  have placed := (((timed.append
    (follow_optionalNode "strategy" (j.strategy.map Strategy.node))).append
    (follow_optionalNode "pool" (j.pool.map Pool.node))).append
    (follow_optionalText "container" j.container)).append
    (follow_optionalNode "workspace" (j.workspace.map WorkspaceClean.node))
  exact (placed.append (follow_list "variables" j.variableItems)).append
    (follow_ownList "steps" j.steps)

theorem Stage.follow_fields (s : Stage) : s.fields.Follow (KeyOrder.item .stage) := by
  have named := ((follow_text "stage" s.name).append
    (follow_optionalText "displayName" s.displayName)).append
      (follow_optionalNode "dependsOn" s.dependsOn.node?)
  have placed := (named.append
    (follow_optionalText "condition" (s.condition.map Condition.text))).append
    (follow_optionalNode "pool" (s.pool.map Pool.node))
  exact (placed.append (follow_list "variables" s.variableItems)).append
    (follow_ownList "jobs" s.jobs)

theorem Preamble.follow_fields (p : Preamble) :
    p.fields.Follow
      ["name", "trigger", "pr", "schedules", "parameters", "variables", "pool"] := by
  have started := ((follow_optionalText "name" p.name).append
    (follow_optionalNode "trigger" (p.trigger.map Trigger.node))).append
    (follow_optionalNode "pr" (p.pr.map PrTrigger.node))
  have declared := (started.append
    (follow_items "schedules" (p.schedules.map Schedule.node))).append
    (follow_items "parameters" (p.parameters.map DeclaredParameter.node))
  exact (declared.append (follow_list "variables" p.variableItems)).append
    (follow_optionalNode "pool" (p.pool.map Pool.node))

/-! ### Steps -/

/-- The settings that only steps of this action have. -/
def StepAction.settingOrder : StepAction → List String
  | .task _ => []
  | .script _ | .bash _ => ["workingDirectory", "failOnStderr"]
  | .pwsh _ | .powershell _ => ["workingDirectory", "failOnStderr", "errorActionPreference"]
  | .checkout _ => ["clean", "fetchDepth", "lfs", "submodules", "path", "persistCredentials"]
  | .download _ => ["artifact", "patterns", "path"]
  | .publish _ => ["artifact"]

/-- The settings that all actions share, apart from the environment. -/
def StepAction.sharedOrder : List String :=
  ["displayName", "name", "condition", "continueOnError", "enabled", "timeoutInMinutes",
    "retryCountOnTaskFailure", "inputs"]

theorem StepAction.follow_fields (action : StepAction) :
    action.fields.Follow action.settingOrder := by
  cases action with
  | task _ => exact List.nil_sublist _
  | script s | bash s =>
    exact (follow_optionalText "workingDirectory" s.workingDirectory).append
      (follow_flag "failOnStderr" s.failOnStderr)
  | pwsh s | powershell s =>
    exact ((follow_optionalText "workingDirectory" s.workingDirectory).append
      (follow_flag "failOnStderr" s.failOnStderr)).append
      (follow_optionalText "errorActionPreference" s.errorActionPreference)
  | checkout c =>
    have fetched := ((follow_optionalBoolean "clean" c.clean).append
      (follow_optionalNumber "fetchDepth" c.fetchDepth)).append
      (follow_optionalBoolean "lfs" c.lfs)
    exact ((fetched.append
      (follow_optionalNode "submodules" (c.submodules.map Submodules.node))).append
      (follow_optionalText "path" c.path)).append
      (follow_optionalBoolean "persistCredentials" c.persistCredentials)
  | download d =>
    exact ((follow_optionalText "artifact" d.artifact).append
      (follow_optionalText "patterns" d.patterns)).append (follow_optionalText "path" d.path)
  | publish p => exact follow_optionalText "artifact" p.artifact

/-- The keys of a step follow the order of its action, whatever order its own settings follow. -/
theorem Step.follow_fields (s : Step) {settings : List String}
    (own : s.action.fields.Follow settings) :
    s.fields.Follow (s.action.key :: StepAction.sharedOrder ++ settings ++ ["env"]) := by
  have named := (((follow_text s.action.key s.action.text).append
    (follow_optionalText "displayName" s.displayName)).append
    (follow_optionalText "name" s.name)).append
    (follow_optionalText "condition" (s.condition.map Condition.text))
  have timed := (((named.append (follow_flag "continueOnError" s.continueOnError)).append
    (follow_optionalBoolean "enabled" (if s.enabled then none else some false))).append
    (follow_optionalNumber "timeoutInMinutes" s.timeoutInMinutes)).append
    (follow_optionalNumber "retryCountOnTaskFailure" s.retryCountOnTaskFailure)
  exact ((timed.append (follow_map "inputs" s.inputs)).append own).append (follow_map "env" s.env)

/-- The step downloads into a path, and narrows down what it downloads: its path is written behind
the artifact and the patterns. -/
def Step.HasLatePath (s : Step) : Prop :=
  ∃ d, s.action = .download d ∧ d.path ≠ none ∧ (d.artifact ≠ none ∨ d.patterns ≠ none)

/-- The settings of an action are in order, unless it has a late path. -/
theorem Step.exists_follow_settings {s : Step} (early : ¬s.HasLatePath) :
    ∃ settings, s.action.fields.Follow settings ∧
      (s.action.key :: StepAction.sharedOrder ++ settings ++ ["env"]).Sublist
        (KeyOrder.item .step) := by
  match h : s.action with
  | .download ⟨source, artifact, patterns, none⟩ =>
    refine ⟨["artifact", "patterns"], ?_, by rw [StepAction.key]; decide⟩
    exact ((follow_optionalText "artifact" artifact).append
      (follow_optionalText "patterns" patterns)).append (List.Sublist.refl [])
  | .download ⟨source, none, none, some path⟩ =>
    refine ⟨["path"], follow_optionalText "path" (some path), by rw [StepAction.key]; decide⟩
  | .download ⟨source, some artifact, patterns, some path⟩ =>
    exact absurd ⟨_, h, by simp, .inl (by simp)⟩ early
  | .download ⟨source, none, some patterns, some path⟩ =>
    exact absurd ⟨_, h, by simp, .inr (by simp)⟩ early
  | .task _ | .script _ | .bash _ | .pwsh _ | .powershell _ | .checkout _ | .publish _ =>
    refine ⟨_, StepAction.follow_fields _, ?_⟩
    rw [StepAction.key, StepAction.settingOrder]
    decide

theorem DownloadStep.not_follow_item {d : DownloadStep} (path : d.path ≠ none)
    (narrowed : d.artifact ≠ none ∨ d.patterns ≠ none) :
    ¬d.fields.Follow (KeyOrder.item .step) := by
  match d with
  | ⟨_, _, _, none⟩ => exact absurd rfl path
  | ⟨_, none, none, _⟩ => simp at narrowed
  | ⟨_, some _, none, some _⟩ =>
    have reversed : ¬["artifact", "path"].Sublist (KeyOrder.item .step) := by decide
    exact reversed
  | ⟨_, none, some _, some _⟩ =>
    have reversed : ¬["patterns", "path"].Sublist (KeyOrder.item .step) := by decide
    exact reversed
  | ⟨_, some _, some _, some _⟩ =>
    have reversed : ¬["artifact", "patterns", "path"].Sublist (KeyOrder.item .step) := by decide
    exact reversed

/-- The keys of a step are keys of its order, late path or not. -/
theorem Step.key_mem_item {s : Step} {key : String} {n : Node} (member : (key, n) ∈ s.fields) :
    key ∈ KeyOrder.item .step := by
  have known := (s.follow_fields s.action.follow_fields).mem member
  have within : s.action.key :: StepAction.sharedOrder ++ s.action.settingOrder ++ ["env"] ⊆
      KeyOrder.item .step := by
    cases s.action <;> rw [StepAction.key, StepAction.settingOrder] <;> decide
  exact within known

/-- The settings of the action stand among the fields of the step. -/
theorem Step.follow_settings {s : Step} {order : List String} (h : s.fields.Follow order) :
    s.action.fields.Follow order := by
  apply List.Sublist.trans _ h
  unfold Step.fields
  rw [keys_append, keys_append]
  exact (List.sublist_append_right _ _).trans (List.sublist_append_left _ _)

/-- **The keys of a step are in order exactly if it has no late path.** -/
theorem Step.follow_item_iff (s : Step) :
    s.fields.Follow (KeyOrder.item .step) ↔ ¬s.HasLatePath := by
  constructor
  · intro follows ⟨d, isDownload, path, narrowed⟩
    have own := Step.follow_settings follows
    rw [isDownload] at own
    exact DownloadStep.not_follow_item path narrowed own
  · intro early
    obtain ⟨settings, own, within⟩ := Step.exists_follow_settings early
    exact (s.follow_fields own).trans within

end AzurePipelines
