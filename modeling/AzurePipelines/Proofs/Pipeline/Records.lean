import AzurePipelines.Proofs.Pipeline.Canonical
import Mathlib

/-!
# Records are recovered from what is written

What a record is written as tells the record: no two filters, pools, triggers or declared parameters
are written as one node (`Pool.node_injective` and its like), and no two variables or steps in
canonical form with the same fields (`Variable.fields_injective`, `Step.canonical_eq_of_fields`).
Each field is found at its key, an absent one by there being no such key.
-/

namespace AzurePipelines

open Yaml (Node)

/-! ## Texts, flags and collections -/

theorem textNode_injective : Function.Injective Node.text := by
  rintro a b ⟨⟩
  rfl

theorem textItems_injective : Function.Injective textItems :=
  List.map_injective_iff.2 textNode_injective

theorem booleanNode_injective : Function.Injective fun b : Bool => Node.scalar (.boolean b) := by
  rintro a b ⟨⟩
  rfl

theorem numberNode_injective : Function.Injective fun n : Nat => Node.scalar (.integer n) := by
  intro a b same
  simpa using same

theorem filledSequence_injective : Function.Injective filledSequence := by
  intro a b same
  cases a with
  | nil =>
    cases b with
    | nil => rfl
    | cons _ _ => simp [filledSequence] at same
  | cons _ _ =>
    cases b with
    | nil => simp [filledSequence] at same
    | cons _ _ => simpa [filledSequence] using same

theorem raisedFlag_injective : Function.Injective raisedFlag := by
  intro a b same
  cases a <;> cases b <;> simp_all [raisedFlag]

theorem Value.node_injective : Function.Injective Value.node := by
  rintro ⟨a, _⟩ ⟨b, _⟩ same
  cases same
  rfl

theorem OrderedMap.node_injective : Function.Injective (OrderedMap.node) := by
  rintro ⟨a, _⟩ ⟨b, _⟩ same
  rw [OrderedMap.node, OrderedMap.node, Node.mapping.injEq] at same
  have pairs : Function.Injective fun entry : String × Value => (entry.1, entry.2.node) := by
    rintro ⟨key, value⟩ ⟨other, further⟩ samePair
    rw [Prod.mk.injEq] at samePair
    rw [Prod.mk.injEq]
    exact ⟨samePair.1, Value.node_injective samePair.2⟩
  obtain rfl : a = b := List.map_injective_iff.2 pairs same
  rfl

theorem OrderedMap.eq_empty_of_isEmpty {m : OrderedMap Value} (empty : m.isEmpty = true) :
    m = .empty := by
  obtain ⟨entries, _⟩ := m
  obtain rfl : entries = [] := List.isEmpty_iff.1 empty
  rfl

theorem OrderedMap.filledNode_injective : Function.Injective OrderedMap.filledNode := by
  intro a b same
  cases aEmpty : a.isEmpty with
  | true =>
    cases bEmpty : b.isEmpty with
    | true => rw [eq_empty_of_isEmpty aEmpty, eq_empty_of_isEmpty bEmpty]
    | false => simp [filledNode, aEmpty, bEmpty] at same
  | false =>
    cases bEmpty : b.isEmpty with
    | true => simp [filledNode, aEmpty, bEmpty] at same
    | false =>
      simp only [filledNode, aEmpty, bEmpty, Bool.false_eq_true, if_false,
        Option.some.injEq] at same
      exact node_injective same

/-! ## Settings of jobs and stages -/

theorem Pool.node_injective : Function.Injective Pool.node := by
  intro a b same
  match a, b with
  | .named name, .named other =>
    rw [textNode_injective same]
  | .named _, .hosted _ _ _ => cases same
  | .hosted _ _ _, .named _ => cases same
  | .hosted name vmImage demands, .hosted name' vmImage' demands' =>
    rw [Pool.node, Pool.node, Node.mapping.injEq] at same
    have found (key : String) := congrArg (List.lookup key) same
    have names : name = name' := Option.map_injective textNode_injective (by
      simpa [List.lookup_append] using found "name")
    have images : vmImage = vmImage' := Option.map_injective textNode_injective (by
      simpa [List.lookup_append] using found "vmImage")
    have items : demands = demands' := textItems_injective (filledSequence_injective (by
      simpa [List.lookup_append] using found "demands"))
    rw [names, images, items]

theorem DependsOn.canonical_eq_of_node? {a b : DependsOn} (same : a.node? = b.node?) :
    a.canonical = b.canonical := by
  match a, b with
  | .previous, .previous => rfl
  | .nothing, .nothing => rfl
  | .single name, .single other =>
    simp only [node?, Option.some.injEq] at same
    rw [textNode_injective same]
  | .multiple names, .multiple others =>
    simp only [node?, Option.some.injEq, Node.sequence.injEq] at same
    rw [textItems_injective same]
  | .nothing, .multiple others =>
    simp only [node?, Option.some.injEq, Node.sequence.injEq] at same
    obtain rfl : [] = others := textItems_injective same
    rfl
  | .multiple names, .nothing =>
    simp only [node?, Option.some.injEq, Node.sequence.injEq] at same
    obtain rfl : names = [] := textItems_injective same
    rfl
  | .previous, .nothing | .previous, .single _ | .previous, .multiple _ => cases same
  | .nothing, .previous | .single _, .previous | .multiple _, .previous => cases same
  | .single _, .nothing | .single _, .multiple _ => cases same
  | .nothing, .single _ | .multiple _, .single _ => cases same

theorem Strategy.node_injective : Function.Injective Strategy.node := by
  rintro ⟨matrix, parallel, maxParallel⟩ ⟨matrix', parallel', maxParallel'⟩ same
  rw [Strategy.node, Strategy.node, Node.mapping.injEq] at same
  have found (key : String) := congrArg (List.lookup key) same
  have legs : matrix = matrix' := OrderedMap.filledNode_injective (by
    simpa [List.lookup_append] using found "matrix")
  have counts : parallel = parallel' := Option.map_injective numberNode_injective (by
    simpa [List.lookup_append] using found "parallel")
  have limits : maxParallel = maxParallel' := Option.map_injective numberNode_injective (by
    simpa [List.lookup_append] using found "maxParallel")
  rw [legs, counts, limits]

theorem WorkspaceClean.node_injective : Function.Injective WorkspaceClean.node := by
  intro a b same
  rw [WorkspaceClean.node, WorkspaceClean.node, Node.mapping.injEq] at same
  have texts : a.text = b.text := textNode_injective (by
    simpa using congrArg (List.lookup "clean") same)
  cases a <;> cases b <;> first | rfl | exact absurd texts (by decide)

theorem Condition.text_injective : Function.Injective Condition.text := by
  rintro ⟨a⟩ ⟨b⟩ same
  exact congrArg Condition.mk same

/-! ## Triggers and parameters -/

theorem Filter.node_injective : Function.Injective Filter.node := by
  rintro ⟨included, excluded⟩ ⟨included', excluded'⟩ same
  rw [Filter.node, Filter.node, Node.mapping.injEq] at same
  have found (key : String) := congrArg (List.lookup key) same
  have taken : included = included' := textItems_injective (filledSequence_injective (by
    simpa [List.lookup_append] using found "include"))
  have left : excluded = excluded' := textItems_injective (filledSequence_injective (by
    simpa [List.lookup_append] using found "exclude"))
  rw [taken, left]

theorem Trigger.node_injective : Function.Injective Trigger.node := by
  intro a b same
  match a, b with
  | .never, .never => rfl
  | .never, .pushes _ _ _ _ => cases same
  | .pushes _ _ _ _, .never => cases same
  | .pushes batch branches paths tags, .pushes batch' branches' paths' tags' =>
    rw [Trigger.node, Trigger.node, Node.mapping.injEq] at same
    have found (key : String) := congrArg (List.lookup key) same
    have batches : batch = batch' := Option.map_injective booleanNode_injective (by
      simpa [List.lookup_append] using found "batch")
    have branchFilters : branches = branches' := Option.map_injective Filter.node_injective (by
      simpa [List.lookup_append] using found "branches")
    have pathFilters : paths = paths' := Option.map_injective Filter.node_injective (by
      simpa [List.lookup_append] using found "paths")
    have tagFilters : tags = tags' := Option.map_injective Filter.node_injective (by
      simpa [List.lookup_append] using found "tags")
    rw [batches, branchFilters, pathFilters, tagFilters]

theorem PrTrigger.node_injective : Function.Injective PrTrigger.node := by
  intro a b same
  match a, b with
  | .never, .never => rfl
  | .never, .pullRequests _ _ _ _ => cases same
  | .pullRequests _ _ _ _, .never => cases same
  | .pullRequests autoCancel branches paths drafts,
    .pullRequests autoCancel' branches' paths' drafts' =>
    rw [PrTrigger.node, PrTrigger.node, Node.mapping.injEq] at same
    have found (key : String) := congrArg (List.lookup key) same
    have cancels : autoCancel = autoCancel' := Option.map_injective booleanNode_injective (by
      simpa [List.lookup_append] using found "autoCancel")
    have branchFilters : branches = branches' := Option.map_injective Filter.node_injective (by
      simpa [List.lookup_append] using found "branches")
    have pathFilters : paths = paths' := Option.map_injective Filter.node_injective (by
      simpa [List.lookup_append] using found "paths")
    have taken : drafts = drafts' := Option.map_injective booleanNode_injective (by
      simpa [List.lookup_append] using found "drafts")
    rw [cancels, branchFilters, pathFilters, taken]

theorem Schedule.node_injective : Function.Injective Schedule.node := by
  rintro ⟨cron, displayName, branches, always, batch⟩
    ⟨cron', displayName', branches', always', batch'⟩ same
  rw [Schedule.node, Schedule.node, Node.mapping.injEq] at same
  have found (key : String) := congrArg (List.lookup key) same
  have times : cron = cron' := textNode_injective (by
    simpa [List.lookup_append] using found "cron")
  have titles : displayName = displayName' := Option.map_injective textNode_injective (by
    simpa [List.lookup_append] using found "displayName")
  have filters : branches = branches' := Filter.node_injective (by
    simpa [List.lookup_append] using found "branches")
  have unchanged : always = always' := raisedFlag_injective (by
    simpa [List.lookup_append] using found "always")
  have batches : batch = batch' := raisedFlag_injective (by
    simpa [List.lookup_append] using found "batch")
  rw [times, titles, filters, unchanged, batches]

theorem ParameterKind.text_injective : Function.Injective ParameterKind.text := by
  intro a b same
  have read := congrArg ParameterKind.ofText? same
  rw [ofText?_text, ofText?_text] at read
  exact Option.some.inj read

theorem DeclaredParameter.node_injective : Function.Injective DeclaredParameter.node := by
  rintro ⟨name, displayName, kind, default, values⟩ ⟨name', displayName', kind', default', values'⟩
    same
  rw [DeclaredParameter.node, DeclaredParameter.node, Node.mapping.injEq] at same
  have found (key : String) := congrArg (List.lookup key) same
  have names : name = name' := textNode_injective (by
    simpa [List.lookup_append] using found "name")
  have titles : displayName = displayName' :=
    Option.map_injective textNode_injective (by
      simpa [List.lookup_append] using found "displayName")
  have kinds : kind = kind' := ParameterKind.text_injective (textNode_injective (by
    simpa [List.lookup_append] using found "type"))
  have defaults : default = default' := Option.map_injective Value.node_injective (by
    simpa [List.lookup_append] using found "default")
  have allowed : values = values' :=
    List.map_injective_iff.2 Value.node_injective (filledSequence_injective (by
      simpa [List.lookup_append] using found "values"))
  rw [names, titles, kinds, defaults, allowed]

/-! ## Templates and variables -/

theorem TemplateReference.node_injective : Function.Injective TemplateReference.node := by
  rintro ⟨path, parameters⟩ ⟨path', parameters'⟩ same
  rw [TemplateReference.node, TemplateReference.node, Node.mapping.injEq] at same
  have found (key : String) := congrArg (List.lookup key) same
  have paths : path = path' := textNode_injective (by
    simpa [List.lookup_append] using found "template")
  have values : parameters = parameters' := OrderedMap.filledNode_injective (by
    simpa [List.lookup_append] using found "parameters")
  rw [paths, values]

theorem Variable.fields_injective : Function.Injective Variable.fields := by
  intro a b same
  have found (key : String) := congrArg (List.lookup key) same
  match a, b with
  | .value name content readonly, .value name' content' readonly' =>
    have names : name = name' := textNode_injective (by
      simpa [Variable.fields, List.lookup_append] using found "name")
    have contents : content = content' := by
      simpa [Variable.fields, List.lookup_append] using found "value"
    have flags : readonly = readonly' := raisedFlag_injective (by
      simpa [Variable.fields, List.lookup_append] using found "readonly")
    rw [names, contents, flags]
  | .group name, .group name' =>
    have names : name = name' := textNode_injective (by
      simpa [Variable.fields] using found "group")
    rw [names]
  | .value _ _ _, .group _ =>
    have absent := found "group"
    simp [Variable.fields, List.lookup_append] at absent
  | .group _, .value _ _ _ =>
    have absent := found "group"
    simp [Variable.fields, List.lookup_append] at absent

/-! ## Steps -/

/-- The keys of the settings that steps of every action share. -/
def sharedStepKeys : List String :=
  ["displayName", "name", "condition", "continueOnError", "enabled", "timeoutInMinutes",
    "retryCountOnTaskFailure", "inputs", "env"]

/-- No action has a setting of its own at a key of a shared one. -/
theorem StepAction.lookup_fields_of_mem {key : String} (shared : key ∈ sharedStepKeys)
    (action : StepAction) : action.fields.lookup key = none := by
  simp only [sharedStepKeys, List.mem_cons, List.not_mem_nil, or_false] at shared
  cases action <;>
    rcases shared with rfl | rfl | rfl | rfl | rfl | rfl | rfl | rfl | rfl <;>
    simp [StepAction.fields, ScriptStep.fields, PowershellStep.fields, CheckoutStep.fields,
      DownloadStep.fields, List.lookup_append]

theorem ScriptStep.eq_of_fields {a b : ScriptStep} (contents : a.contents = b.contents)
    (same : a.fields = b.fields) : a = b := by
  obtain ⟨_, directory, failing⟩ := a
  obtain ⟨_, directory', failing'⟩ := b
  have found (key : String) := congrArg (List.lookup key) same
  have directories : directory = directory' := Option.map_injective textNode_injective (by
    simpa [ScriptStep.fields, List.lookup_append] using found "workingDirectory")
  have flags : failing = failing' := raisedFlag_injective (by
    simpa [ScriptStep.fields, List.lookup_append] using found "failOnStderr")
  rw [ScriptStep.mk.injEq]
  exact ⟨contents, directories, flags⟩

theorem PowershellStep.eq_of_fields {a b : PowershellStep} (contents : a.contents = b.contents)
    (same : a.fields = b.fields) : a = b := by
  obtain ⟨⟨_, directory, failing⟩, preference⟩ := a
  obtain ⟨⟨_, directory', failing'⟩, preference'⟩ := b
  have found (key : String) := congrArg (List.lookup key) same
  have directories : directory = directory' := Option.map_injective textNode_injective (by
    simpa [PowershellStep.fields, ScriptStep.fields, List.lookup_append] using
      found "workingDirectory")
  have flags : failing = failing' := raisedFlag_injective (by
    simpa [PowershellStep.fields, ScriptStep.fields, List.lookup_append] using
      found "failOnStderr")
  have preferences : preference = preference' := Option.map_injective textNode_injective (by
    simpa [PowershellStep.fields, ScriptStep.fields, List.lookup_append] using
      found "errorActionPreference")
  rw [PowershellStep.mk.injEq, ScriptStep.mk.injEq]
  exact ⟨⟨contents, directories, flags⟩, preferences⟩

theorem Submodules.node_injective : Function.Injective Submodules.node := by
  intro a b same
  cases a <;> cases b <;> first | rfl | cases same

/-- Only the names of keywords have another canonical form. -/
theorem CheckoutSource.canonical_eq_of_text {a b : CheckoutSource} (same : a.text = b.text) :
    a.canonical = b.canonical := by
  have canonical (source : CheckoutSource) :
      source.canonical = (CheckoutSource.repository source.text).canonical := by
    cases source <;> rfl
  rw [canonical a, canonical b, same]

theorem CheckoutStep.canonical_eq_of_fields {a b : CheckoutStep}
    (source : a.source.text = b.source.text)
    (same : a.fields = b.fields) :
    (StepAction.checkout a).canonical = (StepAction.checkout b).canonical := by
  obtain ⟨_, clean, fetchDepth, lfs, submodules, path, persist⟩ := a
  obtain ⟨_, clean', fetchDepth', lfs', submodules', path', persist'⟩ := b
  have found (key : String) := congrArg (List.lookup key) same
  have cleans : clean = clean' := Option.map_injective booleanNode_injective (by
    simpa [CheckoutStep.fields, List.lookup_append] using found "clean")
  have depths : fetchDepth = fetchDepth' := Option.map_injective numberNode_injective (by
    simpa [CheckoutStep.fields, List.lookup_append] using found "fetchDepth")
  have largeFiles : lfs = lfs' := Option.map_injective booleanNode_injective (by
    simpa [CheckoutStep.fields, List.lookup_append] using found "lfs")
  have modules : submodules = submodules' := Option.map_injective Submodules.node_injective (by
    simpa [CheckoutStep.fields, List.lookup_append] using found "submodules")
  have paths : path = path' := Option.map_injective textNode_injective (by
    simpa [CheckoutStep.fields, List.lookup_append] using found "path")
  have credentials : persist = persist' := Option.map_injective booleanNode_injective (by
    simpa [CheckoutStep.fields, List.lookup_append] using found "persistCredentials")
  rw [StepAction.canonical, StepAction.canonical, StepAction.checkout.injEq, CheckoutStep.mk.injEq]
  exact ⟨CheckoutSource.canonical_eq_of_text source, cleans, depths, largeFiles, modules, paths,
    credentials⟩

theorem DownloadStep.eq_of_fields {a b : DownloadStep} (source : a.source = b.source)
    (same : a.fields = b.fields) : a = b := by
  obtain ⟨_, artifact, patterns, path⟩ := a
  obtain ⟨_, artifact', patterns', path'⟩ := b
  have found (key : String) := congrArg (List.lookup key) same
  have artifacts : artifact = artifact' := Option.map_injective textNode_injective (by
    simpa [DownloadStep.fields, List.lookup_append] using found "artifact")
  have filters : patterns = patterns' := Option.map_injective textNode_injective (by
    simpa [DownloadStep.fields, List.lookup_append] using found "patterns")
  have paths : path = path' := Option.map_injective textNode_injective (by
    simpa [DownloadStep.fields, List.lookup_append] using found "path")
  rw [DownloadStep.mk.injEq]
  exact ⟨source, artifacts, filters, paths⟩

theorem PublishStep.eq_of_artifact {a b : PublishStep} (path : a.path = b.path)
    (same : Fields.optionalText "artifact" a.artifact = Fields.optionalText "artifact" b.artifact) :
    a = b := by
  have artifacts : a.artifact = b.artifact := Option.map_injective textNode_injective (by
    simpa using congrArg (List.lookup "artifact") same)
  obtain ⟨_, _⟩ := a
  rw [PublishStep.mk.injEq]
  exact ⟨path, artifacts⟩

/-- An action is told by its key, the text at its key and its own settings. -/
theorem StepAction.canonical_eq_of_fields {a b : StepAction} (key : a.key = b.key)
    (text : a.text = b.text) (same : a.fields = b.fields) : a.canonical = b.canonical := by
  cases a with
  | task name =>
    cases b with
    | task other => exact congrArg StepAction.task text
    | _ => simp [StepAction.key] at key
  | script s =>
    cases b with
    | script other => rw [ScriptStep.eq_of_fields text same]
    | _ => simp [StepAction.key] at key
  | bash s =>
    cases b with
    | bash other => rw [ScriptStep.eq_of_fields text same]
    | _ => simp [StepAction.key] at key
  | pwsh s =>
    cases b with
    | pwsh other => rw [PowershellStep.eq_of_fields text same]
    | _ => simp [StepAction.key] at key
  | powershell s =>
    cases b with
    | powershell other => rw [PowershellStep.eq_of_fields text same]
    | _ => simp [StepAction.key] at key
  | checkout c =>
    cases b with
    | checkout other => exact CheckoutStep.canonical_eq_of_fields text same
    | _ => simp [StepAction.key] at key
  | download d =>
    cases b with
    | download other => rw [DownloadStep.eq_of_fields text same]
    | _ => simp [StepAction.key] at key
  | publish p =>
    cases b with
    | publish other => rw [PublishStep.eq_of_artifact text same]
    | _ => simp [StepAction.key] at key

/-- The settings that stand between the action of a step and the settings of that action. -/
def Step.settings (s : Step) : Fields :=
  Fields.optionalText "displayName" s.displayName ++ Fields.optionalText "name" s.name ++
    Fields.optionalText "condition" (s.condition.map Condition.text) ++
    Fields.flag "continueOnError" s.continueOnError ++
    Fields.optionalBoolean "enabled" (if s.enabled then none else some false) ++
    Fields.optionalNumber "timeoutInMinutes" s.timeoutInMinutes ++
    Fields.optionalNumber "retryCountOnTaskFailure" s.retryCountOnTaskFailure ++
    Fields.map "inputs" s.inputs

theorem Step.fields_eq_cons (s : Step) :
    s.fields = (s.action.key, .text s.action.text) ::
      (s.settings ++ (s.action.fields ++ Fields.map "env" s.env)) := by
  simp [Step.fields, settings, Fields.text]

theorem disabled_injective :
    Function.Injective fun enabled : Bool => if enabled then none else some false := by
  intro a b same
  cases a <;> cases b <;> simp_all

/-- What is written at the key of a shared setting is that setting. -/
theorem Step.lookup_tail (s : Step) {key : String} (shared : key ∈ sharedStepKeys) :
    (s.settings ++ (s.action.fields ++ Fields.map "env" s.env)).lookup key =
      (s.settings ++ Fields.map "env" s.env).lookup key := by
  simp only [List.lookup_append, StepAction.lookup_fields_of_mem shared, Option.none_or]

/-- **A step is recovered from its fields.** -/
theorem Step.canonical_eq_of_fields {a b : Step} (same : a.fields = b.fields) :
    a.canonical = b.canonical := by
  rw [Step.fields_eq_cons, Step.fields_eq_cons, List.cons.injEq, Prod.mk.injEq] at same
  obtain ⟨⟨key, text⟩, tail⟩ := same
  have found (key : String) (shared : key ∈ sharedStepKeys) :
      (a.settings ++ Fields.map "env" a.env).lookup key =
        (b.settings ++ Fields.map "env" b.env).lookup key := by
    rw [← a.lookup_tail shared, ← b.lookup_tail shared, tail]
  obtain ⟨action, displayName, name, condition, continueOnError, enabled, timeout, retries, inputs,
    env⟩ := a
  obtain ⟨action', displayName', name', condition', continueOnError', enabled', timeout', retries',
    inputs', env'⟩ := b
  simp only [settings, List.lookup_append] at found
  obtain rfl : displayName = displayName' := Option.map_injective textNode_injective (by
    simpa using found "displayName" (by decide))
  obtain rfl : name = name' := Option.map_injective textNode_injective (by
    simpa using found "name" (by decide))
  obtain rfl : condition = condition' :=
    Option.map_injective (textNode_injective.comp Condition.text_injective) (by
      simpa using found "condition" (by decide))
  obtain rfl : continueOnError = continueOnError' := raisedFlag_injective (by
    simpa using found "continueOnError" (by decide))
  obtain rfl : enabled = enabled' :=
    disabled_injective (Option.map_injective booleanNode_injective (by
      simpa using found "enabled" (by decide)))
  obtain rfl : timeout = timeout' := Option.map_injective numberNode_injective (by
    simpa using found "timeoutInMinutes" (by decide))
  obtain rfl : retries = retries' := Option.map_injective numberNode_injective (by
    simpa using found "retryCountOnTaskFailure" (by decide))
  obtain rfl : inputs = inputs' := OrderedMap.filledNode_injective (by
    simpa using found "inputs" (by decide))
  obtain rfl : env = env' := OrderedMap.filledNode_injective (by
    simpa using found "env" (by decide))
  have own : action.fields = action'.fields :=
    List.append_cancel_right (List.append_cancel_left tail)
  rw [Step.canonical, Step.canonical, Step.mk.injEq]
  exact ⟨StepAction.canonical_eq_of_fields key (textNode_injective text) own, rfl, rfl, rfl, rfl,
    rfl, rfl, rfl, rfl, rfl⟩

end AzurePipelines
