import AzurePipelines.Proofs.Pipeline.Tree
import AzurePipelines.Serialization
import Mathlib

/-!
# Documents with a text

Every kind of node has a rule of its own (`TreeNode.ObeysRule`), which says nothing of the nodes
below it.  A document has a text exactly if every node of its tree obeys its rule
(`Document.exists_toYaml_iff`): no branch, fragment or pool at any depth is passed over, and nothing
else is asked for.
-/

namespace AzurePipelines

/-! ## The rules -/

/-- Something is left of the text without the blanks around it. -/
def Text.IsFilled (text : String) : Prop := ∃ c ∈ text.toList, isBlank c = false

/-- The text of the action is not blank. -/
def StepAction.ObeysRule : StepAction → Prop
  | .task name => Text.IsFilled name
  | .script s | .bash s => Text.IsFilled s.contents
  | .pwsh s | .powershell s => Text.IsFilled s.contents
  | .checkout c => ∀ name, c.source = .repository name → Text.IsFilled name
  | .download d => Text.IsFilled d.source
  | .publish p => Text.IsFilled p.path

/-- Only tasks have inputs. -/
def Step.ObeysRule (s : Step) : Prop :=
  s.action.ObeysRule ∧ (s.inputs.isEmpty = false → s.action.isTask = true)

def Variable.ObeysRule : Variable → Prop
  | .value name _ _ => Text.IsFilled name
  | .group name => Text.IsFilled name

def Job.ObeysRule (j : Job) : Prop := Text.IsFilled j.name ∧ j.steps ≠ []

def Stage.ObeysRule (s : Stage) : Prop := Text.IsFilled s.name ∧ s.jobs ≠ []

/-- A pool of its own agents is named, and any other has a name or an image. -/
def Pool.ObeysRule : Pool → Prop
  | .named name => Text.IsFilled name
  | .hosted name vmImage _ => name.isSome = true ∨ vmImage.isSome = true

/-- A template has a path, and a fragment is of the kind of its list; what an item has to obey is
another rule. -/
def ListItem.ObeysRule {α : Type} (rule : α → Prop) : ListItem α → Prop
  | .item value => rule value
  | .template reference => Text.IsFilled reference.path
  | .block _ | .fragment _ => True
  | .foreignFragment _ _ => False

/-- A pipeline has jobs or stages. -/
def Document.ObeysRule : Document → Prop
  | .singleStage _ jobs => jobs ≠ []
  | .multiStage _ stages => stages ≠ []
  | .template _ _ => True

/-- The rule of a node, apart from the nodes below it. -/
def TreeNode.ObeysRule : TreeNode → Prop
  | .document d => d.ObeysRule
  | .schedule s => Text.IsFilled s.cron
  | .parameter p => Text.IsFilled p.name
  | .pool p => p.ObeysRule
  | .variableEntry entry => entry.ObeysRule Variable.ObeysRule
  | .stepEntry entry => entry.ObeysRule Step.ObeysRule
  | .jobEntry entry => entry.ObeysRule Job.ObeysRule
  | .stageEntry entry => entry.ObeysRule Stage.ObeysRule

/-! ## Faults of texts and lists -/

theorem required_eq_nil_iff (what : RequiredText) (text : String) :
    required what text = [] ↔ Text.IsFilled text := by
  unfold required Text.IsFilled
  cases blank : Text.allBlank text.toList with
  | true =>
    have none : ¬∃ c ∈ text.toList, Text.isBlank c = false := by
      rintro ⟨c, member, notBlank⟩
      rw [List.all_eq_true.1 blank c member] at notBlank
      cases notBlank
    simpa using none
  | false =>
    obtain ⟨c, member, notBlank⟩ := List.all_eq_false.1 blank
    simpa using ⟨c, member, by simpa using notBlank⟩

@[simp] theorem below_eq_nil_iff (step : PathStep) (faults : List Fault) :
    below step faults = [] ↔ faults = [] := List.map_eq_nil_iff

theorem valuesFaults_eq_nil_iff {β : Type} (faults : β → List Fault) (start : Nat)
    (values : List β) :
    valuesFaults faults start values = [] ↔ ∀ value ∈ values, faults value = [] := by
  induction values generalizing start with
  | nil => simp [valuesFaults]
  | cons value values ih => simp [valuesFaults, ih]

theorem poolFaults_eq_nil_iff (pool : Option Pool) :
    poolFaults pool = [] ↔ ∀ given ∈ pool.toList, given.faults = [] := by
  cases pool with
  | none => simp [poolFaults]
  | some given => simp [poolFaults]

section Lists

variable {α : Type} [Checked α]

theorem listFaults_eq_nil_iff (step : Nat → PathStep) (start : Nat)
    (entries : List (ListItem α)) :
    listFaults step start entries = [] ↔ ∀ entry ∈ entries, entry.faults = [] := by
  induction entries generalizing start with
  | nil => simp [listFaults]
  | cons entry entries ih => simp [listFaults, ih]

theorem fieldFaults_eq_nil_iff (name : String) (entries : List (ListItem α)) :
    fieldFaults name entries = [] ↔ ∀ entry ∈ entries, entry.faults = [] := by
  rw [fieldFaults, below_eq_nil_iff, listFaults_eq_nil_iff]

theorem branchFaults_eq_nil_iff (start : Nat) (branches : List (Branch α)) :
    branchFaults start branches = [] ↔
      ∀ entry ∈ branches.flatMap Branch.items, entry.faults = [] := by
  induction branches generalizing start with
  | nil => simp [branchFaults]
  | cons branch branches ih =>
    obtain ⟨condition, items⟩ := branch
    rw [branchFaults, List.append_eq_nil_iff, below_eq_nil_iff, Branch.faults,
      listFaults_eq_nil_iff, ih, List.flatMap_cons, List.forall_mem_append]

theorem elseFaults_eq_nil_iff (elseItems : Option (List (ListItem α))) :
    elseFaults elseItems = [] ↔ ∀ entry ∈ elseItems.getD [], entry.faults = [] := by
  cases elseItems with
  | none => simp [elseFaults]
  | some items => simp [elseFaults, listFaults_eq_nil_iff]

/-- An entry is without faults if it obeys its rule, and so are all entries inside of it. -/
theorem ListItem.faults_eq_nil_iff (entry : ListItem α) :
    entry.faults = [] ↔ entry.ObeysRule (Checked.faults · = []) ∧
      ∀ lower ∈ entry.inner, lower.faults = [] := by
  cases entry with
  | item value => simp [ListItem.faults, ListItem.ObeysRule, inner]
  | template reference =>
    simp [ListItem.faults, ListItem.ObeysRule, inner, required_eq_nil_iff]
  | fragment items => simp [ListItem.faults, ListItem.ObeysRule, inner, listFaults_eq_nil_iff]
  | foreignFragment kind size => simp [ListItem.faults, ListItem.ObeysRule]
  | block branches =>
    obtain ⟨condition, items, elseIfs, elseItems⟩ := branches
    simp only [ListItem.faults, Conditioned.faults, ListItem.ObeysRule, inner,
      List.append_eq_nil_iff, below_eq_nil_iff, listFaults_eq_nil_iff, branchFaults_eq_nil_iff,
      elseFaults_eq_nil_iff, List.forall_mem_append, true_and, and_assoc]

end Lists

/-! ## Faults of nodes -/

theorem StepAction.faults_eq_nil_iff (action : StepAction) :
    action.faults = [] ↔ action.ObeysRule := by
  match action with
  | .task _ | .script _ | .bash _ | .pwsh _ | .powershell _ | .download _ | .publish _ =>
    exact required_eq_nil_iff _ _
  | .checkout ⟨.repository name, _, _, _, _, _, _⟩ =>
    simp [StepAction.faults, ObeysRule, required_eq_nil_iff]
  | .checkout ⟨.selfRepository, _, _, _, _, _, _⟩ => simp [StepAction.faults, ObeysRule]
  | .checkout ⟨.nothing, _, _, _, _, _, _⟩ => simp [StepAction.faults, ObeysRule]

theorem Step.faults_eq_nil_iff (s : Step) : s.faults = [] ↔ s.ObeysRule := by
  rw [Step.faults, List.append_eq_nil_iff, StepAction.faults_eq_nil_iff, ObeysRule]
  cases s.inputs.isEmpty <;> cases s.action.isTask <;> simp

theorem Variable.faults_eq_nil_iff (v : Variable) : v.faults = [] ↔ v.ObeysRule := by
  cases v with
  | value name content readonly => exact required_eq_nil_iff _ _
  | group name => exact required_eq_nil_iff _ _

theorem Pool.faults_eq_nil_iff (p : Pool) : p.faults = [] ↔ p.ObeysRule := by
  cases p with
  | named name => exact required_eq_nil_iff _ _
  | hosted name vmImage demands =>
    cases name <;> cases vmImage <;> simp [Pool.faults, ObeysRule]

namespace TreeNode

/-- The faults of a node and of all nodes below it. -/
def faults : TreeNode → List Fault
  | document d => d.faults
  | schedule s => s.faults
  | parameter p => p.faults
  | pool p => p.faults
  | variableEntry entry => entry.faults
  | stepEntry entry => entry.faults
  | jobEntry entry => entry.faults
  | stageEntry entry => entry.faults

theorem preamble_faults_eq_nil_iff (preamble : Preamble) :
    preamble.faults = [] ↔ ∀ child ∈ ofPreamble preamble, child.faults = [] := by
  simp only [Preamble.faults, parametersFaults, List.append_eq_nil_iff, below_eq_nil_iff,
    valuesFaults_eq_nil_iff, fieldFaults_eq_nil_iff, poolFaults_eq_nil_iff, ofPreamble,
    List.forall_mem_append, List.forall_mem_map, TreeNode.faults]

theorem templateBody_faults_eq_nil_iff (body : TemplateBody) :
    body.faults = [] ↔ ∀ child ∈ ofTemplateBody body, child.faults = [] := by
  cases body <;>
    simp only [TemplateBody.faults, fieldFaults_eq_nil_iff, ofTemplateBody, List.forall_mem_map,
      TreeNode.faults]

theorem job_faults_eq_nil_iff (job : Job) :
    job.faults = [] ↔ job.ObeysRule ∧ ∀ child ∈ ofJob job, child.faults = [] := by
  have steps : (if job.steps.isEmpty then [Fault.here (.jobWithoutSteps job.name)] else []) = [] ↔
      job.steps ≠ [] := by
    cases job.steps <;> simp
  simp only [Job.faults, List.append_eq_nil_iff, required_eq_nil_iff, steps, poolFaults_eq_nil_iff,
    fieldFaults_eq_nil_iff, Job.ObeysRule, ofJob, List.forall_mem_append, List.forall_mem_map,
    TreeNode.faults, and_assoc]

theorem stage_faults_eq_nil_iff (stage : Stage) :
    stage.faults = [] ↔ stage.ObeysRule ∧ ∀ child ∈ ofStage stage, child.faults = [] := by
  have jobs : (if stage.jobs.isEmpty then [Fault.here (.stageWithoutJobs stage.name)] else []) =
      [] ↔ stage.jobs ≠ [] := by
    cases stage.jobs <;> simp
  simp only [Stage.faults, List.append_eq_nil_iff, required_eq_nil_iff, jobs,
    poolFaults_eq_nil_iff, fieldFaults_eq_nil_iff, Stage.ObeysRule, ofStage,
    List.forall_mem_append, List.forall_mem_map, TreeNode.faults, and_assoc]

theorem document_faults_eq_nil_iff (d : Document) :
    d.faults = [] ↔ d.ObeysRule ∧ ∀ child ∈ (document d).children, child.faults = [] := by
  cases d with
  | singleStage preamble jobs =>
    have listed : (if jobs.isEmpty then [Fault.mk [.field "jobs"] .pipelineWithoutJobs] else []) =
        [] ↔ jobs ≠ [] := by
      cases jobs <;> simp
    simp only [Document.faults, List.append_eq_nil_iff, listed, preamble_faults_eq_nil_iff,
      fieldFaults_eq_nil_iff, Document.ObeysRule, children, List.forall_mem_append,
      List.forall_mem_map, TreeNode.faults, and_assoc]
  | multiStage preamble stages =>
    have listed : (if stages.isEmpty then [Fault.mk [.field "stages"] .pipelineWithoutStages]
        else []) = [] ↔ stages ≠ [] := by
      cases stages <;> simp
    simp only [Document.faults, List.append_eq_nil_iff, listed, preamble_faults_eq_nil_iff,
      fieldFaults_eq_nil_iff, Document.ObeysRule, children, List.forall_mem_append,
      List.forall_mem_map, TreeNode.faults, and_assoc]
  | template parameters body =>
    simp only [Document.faults, parametersFaults, List.append_eq_nil_iff, below_eq_nil_iff,
      valuesFaults_eq_nil_iff, templateBody_faults_eq_nil_iff, Document.ObeysRule, children,
      List.forall_mem_append, List.forall_mem_map, TreeNode.faults, true_and]

/-- The case of an entry, which `wrap` takes for a node. -/
theorem entry_faults_eq_nil_iff {α : Type} [Checked α] (wrap : ListItem α → TreeNode)
    (same : ∀ entry, (wrap entry).faults = entry.faults) (entry : ListItem α) {rule : Prop}
    (rules : entry.ObeysRule (Checked.faults · = []) ↔ rule) :
    entry.faults = [] ↔ rule ∧ ∀ child ∈ entry.inner.map wrap, child.faults = [] := by
  rw [ListItem.faults_eq_nil_iff, rules, List.forall_mem_map]
  simp only [same]

/-- **A node is without faults if it obeys its rule, and so are its children.** -/
theorem faults_eq_nil_iff (node : TreeNode) :
    node.faults = [] ↔ node.ObeysRule ∧ ∀ child ∈ node.children, child.faults = [] := by
  match node with
  | document d => exact document_faults_eq_nil_iff d
  | schedule s => simp [TreeNode.faults, Schedule.faults, required_eq_nil_iff, ObeysRule, children]
  | parameter p =>
    simp [TreeNode.faults, DeclaredParameter.faults, required_eq_nil_iff, ObeysRule, children]
  | pool p => simp [TreeNode.faults, Pool.faults_eq_nil_iff, ObeysRule, children]
  | jobEntry (.item job) => exact job_faults_eq_nil_iff job
  | stageEntry (.item stage) => exact stage_faults_eq_nil_iff stage
  | variableEntry entry =>
    have rules : entry.ObeysRule (Checked.faults · = []) ↔ entry.ObeysRule Variable.ObeysRule := by
      cases entry with
      | item v => exact v.faults_eq_nil_iff
      | _ => exact Iff.rfl
    exact entry_faults_eq_nil_iff variableEntry (fun _ => rfl) entry rules
  | stepEntry entry =>
    have rules : entry.ObeysRule (Checked.faults · = []) ↔ entry.ObeysRule Step.ObeysRule := by
      cases entry with
      | item s => exact s.faults_eq_nil_iff
      | _ => exact Iff.rfl
    exact entry_faults_eq_nil_iff stepEntry (fun _ => rfl) entry rules
  | jobEntry (.block _) | jobEntry (.template _) | jobEntry (.fragment _)
  | jobEntry (.foreignFragment _ _) =>
    exact entry_faults_eq_nil_iff jobEntry (fun _ => rfl) _ Iff.rfl
  | stageEntry (.block _) | stageEntry (.template _) | stageEntry (.fragment _)
  | stageEntry (.foreignFragment _ _) =>
    exact entry_faults_eq_nil_iff stageEntry (fun _ => rfl) _ Iff.rfl

end TreeNode

/-! ## Documents -/

namespace Document

/-- A document is without faults exactly if every node of its tree obeys its rule. -/
theorem faults_eq_nil_iff (document : Document) :
    document.faults = [] ↔ ∀ node, (TreeNode.document document).Reaches node → node.ObeysRule :=
  TreeNode.iff_forall_reaches TreeNode.faults_eq_nil_iff (.document document)

/-- **Documents have a text exactly if every node of their tree obeys its rule.** -/
theorem exists_toYaml_iff (config : SerializerConfig) (document : Document) :
    (∃ text, document.toYaml config = .ok text) ↔
      ∀ node, (TreeNode.document document).Reaches node → node.ObeysRule := by
  rw [← faults_eq_nil_iff]
  simp [toYaml_eq_ok_iff]

end Document

end AzurePipelines
