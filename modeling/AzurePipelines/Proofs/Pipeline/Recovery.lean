import AzurePipelines.Proofs.Pipeline.Lists
import Mathlib

/-!
# Documents are recovered from their sections

No field of a document without fragments is lost in its sections: two such documents are written
alike exactly if they have the same canonical form (`Document.sections_eq_iff`).  Jobs and stages
are recovered from their fields, and with them the lists that hold them, because items of every kind
start with a key that is their own.
-/

namespace AzurePipelines

open Yaml (Node)

/-! ## Variables and steps -/

/-- The list holds no fragment, and its items have no lists. -/
def HasNoFragment {α : Type} (entries : List (ListItem α)) : Prop :=
  ∀ entry ∈ entries, entry.FragmentFree fun _ => True

theorem Variable.recoverable : Recoverable (fun _ : Variable => True) id where
  eq_of_fields _ _ same := Variable.fields_injective same
  head v := by
    cases v with
    | value name content readonly => exact ⟨"name", _, _, rfl, by decide, by decide⟩
    | group name => exact ⟨"group", _, _, rfl, by decide, by decide⟩

theorem Step.recoverable : Recoverable (fun _ : Step => True) Step.canonical where
  eq_of_fields _ _ same := Step.canonical_eq_of_fields same
  head s := by
    have own : s.action.key ≠ "template" ∧ ¬IsBranchKey s.action.key := by
      cases s.action <;> exact ⟨by simp [StepAction.key], by simp only [StepAction.key]; decide⟩
    exact ⟨_, _, _, s.fields_eq_cons, own⟩

/-- Variables are recovered as they are. -/
theorem variableItems_eq_of_listNodes_eq {entries others : List (ListItem Variable)}
    (free : HasNoFragment entries) (otherFree : HasNoFragment others)
    (same : listNodes entries = listNodes others) : entries = others := by
  have mapped := mapItems_eq_of_listNodes_eq Variable.recoverable entries free otherFree same
  rwa [mapItems_id, mapItems_id] at mapped

/-! ## Jobs and stages -/

/-- There is no fragment in the lists of the job. -/
def Job.FragmentFree (j : Job) : Prop := HasNoFragment j.variableItems ∧ HasNoFragment j.steps

/-- There is no fragment in the lists of the stage and of its jobs. -/
def Stage.FragmentFree (s : Stage) : Prop :=
  HasNoFragment s.variableItems ∧ ∀ entry ∈ s.jobs, entry.FragmentFree Job.FragmentFree

theorem Job.canonical_eq_of_fields {a b : Job} (free : a.FragmentFree) (otherFree : b.FragmentFree)
    (same : a.fields = b.fields) : a.canonical = b.canonical := by
  obtain ⟨name, displayName, dependsOn, condition, continueOnError, timeout, cancelTimeout,
    strategy, pool, container, workspace, variableItems, steps⟩ := a
  obtain ⟨name', displayName', dependsOn', condition', continueOnError', timeout', cancelTimeout',
    strategy', pool', container', workspace', variableItems', steps'⟩ := b
  have found (key : String) := congrArg (List.lookup key) same
  simp only [Job.fields, List.lookup_append] at found
  obtain rfl : name = name' := textNode_injective (by simpa using found "job")
  obtain rfl : displayName = displayName' := Option.map_injective textNode_injective (by
    simpa using found "displayName")
  have dependencies : dependsOn.canonical = dependsOn'.canonical :=
    DependsOn.canonical_eq_of_node? (by simpa using found "dependsOn")
  obtain rfl : condition = condition' :=
    Option.map_injective (textNode_injective.comp Condition.text_injective) (by
      simpa using found "condition")
  obtain rfl : continueOnError = continueOnError' := raisedFlag_injective (by
    simpa using found "continueOnError")
  obtain rfl : timeout = timeout' := Option.map_injective numberNode_injective (by
    simpa using found "timeoutInMinutes")
  obtain rfl : cancelTimeout = cancelTimeout' := Option.map_injective numberNode_injective (by
    simpa using found "cancelTimeoutInMinutes")
  obtain rfl : strategy = strategy' := Option.map_injective Strategy.node_injective (by
    simpa using found "strategy")
  obtain rfl : pool = pool' := Option.map_injective Pool.node_injective (by
    simpa using found "pool")
  obtain rfl : container = container' := Option.map_injective textNode_injective (by
    simpa using found "container")
  obtain rfl : workspace = workspace' := Option.map_injective WorkspaceClean.node_injective (by
    simpa using found "workspace")
  obtain rfl : variableItems = variableItems' :=
    variableItems_eq_of_listNodes_eq free.1 otherFree.1 (filledSequence_injective (by
      simpa using found "variables"))
  have sameSteps : mapItems Step.canonical steps = mapItems Step.canonical steps' :=
    mapItems_eq_of_listNodes_eq Step.recoverable steps free.2 otherFree.2 (by
      simpa using found "steps")
  rw [Job.canonical, Job.canonical, dependencies, sameSteps]

theorem Job.recoverable : Recoverable Job.FragmentFree Job.canonical where
  eq_of_fields := Job.canonical_eq_of_fields
  head j := ⟨"job", _, _, rfl, by decide, by decide⟩

theorem Stage.canonical_eq_of_fields {a b : Stage} (free : a.FragmentFree)
    (otherFree : b.FragmentFree) (same : a.fields = b.fields) : a.canonical = b.canonical := by
  obtain ⟨name, displayName, dependsOn, condition, pool, variableItems, jobs⟩ := a
  obtain ⟨name', displayName', dependsOn', condition', pool', variableItems', jobs'⟩ := b
  have found (key : String) := congrArg (List.lookup key) same
  simp only [Stage.fields, List.lookup_append] at found
  obtain rfl : name = name' := textNode_injective (by simpa using found "stage")
  obtain rfl : displayName = displayName' := Option.map_injective textNode_injective (by
    simpa using found "displayName")
  have dependencies : dependsOn.canonical = dependsOn'.canonical :=
    DependsOn.canonical_eq_of_node? (by simpa using found "dependsOn")
  obtain rfl : condition = condition' :=
    Option.map_injective (textNode_injective.comp Condition.text_injective) (by
      simpa using found "condition")
  obtain rfl : pool = pool' := Option.map_injective Pool.node_injective (by
    simpa using found "pool")
  obtain rfl : variableItems = variableItems' :=
    variableItems_eq_of_listNodes_eq free.1 otherFree.1 (filledSequence_injective (by
      simpa using found "variables"))
  have sameJobs : mapItems Job.canonical jobs = mapItems Job.canonical jobs' :=
    mapItems_eq_of_listNodes_eq Job.recoverable jobs free.2 otherFree.2 (by
      simpa using found "jobs")
  rw [Stage.canonical, Stage.canonical, dependencies, sameJobs]

theorem Stage.recoverable : Recoverable Stage.FragmentFree Stage.canonical where
  eq_of_fields := Stage.canonical_eq_of_fields
  head s := ⟨"stage", _, _, rfl, by decide, by decide⟩

/-! ## Documents -/

/-- A preamble with parameters and nothing else. -/
def Preamble.bare (parameters : List DeclaredParameter) : Preamble :=
  ⟨none, none, none, [], parameters, [], none⟩

/-- What stands above the list of the document. -/
def Document.preamble : Document → Preamble
  | .singleStage preamble _ => preamble
  | .multiStage preamble _ => preamble
  | .template parameters _ => .bare parameters

/-- The list of the document. -/
def Document.body : Document → TemplateBody
  | .singleStage _ jobs => .jobs jobs
  | .multiStage _ stages => .stages stages
  | .template _ body => body

theorem Document.sections_eq_append (d : Document) :
    d.sections = d.preamble.fields ++ d.body.fields := by
  cases d with
  | singleStage preamble jobs => rfl
  | multiStage preamble stages => rfl
  | template parameters body => rw [preamble, Preamble.fields_of_isBare rfl]; rfl

/-- The canonical document with this preamble and this list. -/
def Document.assemble (preamble : Preamble) (body : TemplateBody) : Document :=
  if preamble.isBare then .template preamble.parameters body
  else match body with
    | .jobs jobs => .singleStage preamble jobs
    | .stages stages => .multiStage preamble stages
    | body => .template preamble.parameters body

theorem Document.canonical_eq_assemble (d : Document) :
    d.canonical = assemble d.preamble d.body.canonical := by
  cases d <;> rfl

def TemplateBody.FragmentFree : TemplateBody → Prop
  | .steps items => HasNoFragment items
  | .jobs items => ∀ entry ∈ items, entry.FragmentFree Job.FragmentFree
  | .stages items => ∀ entry ∈ items, entry.FragmentFree Stage.FragmentFree
  | .variableItems items => HasNoFragment items

/-- There is no fragment in any list of the document, at any depth. -/
def Document.FragmentFree (d : Document) : Prop :=
  HasNoFragment d.preamble.variableItems ∧ d.body.FragmentFree

theorem Preamble.eq_of_fields {p q : Preamble} (free : HasNoFragment p.variableItems)
    (otherFree : HasNoFragment q.variableItems) (same : p.fields = q.fields) : p = q := by
  obtain ⟨name, trigger, pr, schedules, parameters, variableItems, pool⟩ := p
  obtain ⟨name', trigger', pr', schedules', parameters', variableItems', pool'⟩ := q
  have found (key : String) := congrArg (List.lookup key) same
  simp only [Preamble.fields, List.lookup_append] at found
  obtain rfl : name = name' := Option.map_injective textNode_injective (by
    simpa using found "name")
  obtain rfl : trigger = trigger' := Option.map_injective Trigger.node_injective (by
    simpa using found "trigger")
  obtain rfl : pr = pr' := Option.map_injective PrTrigger.node_injective (by
    simpa using found "pr")
  obtain rfl : schedules = schedules' :=
    List.map_injective_iff.2 Schedule.node_injective (filledSequence_injective (by
      simpa using found "schedules"))
  obtain rfl : parameters = parameters' :=
    List.map_injective_iff.2 DeclaredParameter.node_injective (filledSequence_injective (by
      simpa using found "parameters"))
  obtain rfl : variableItems = variableItems' :=
    variableItems_eq_of_listNodes_eq free otherFree (filledSequence_injective (by
      simpa using found "variables"))
  obtain rfl : pool = pool' := Option.map_injective Pool.node_injective (by
    simpa using found "pool")
  rfl

/-- The key of a list tells what its items are. -/
theorem TemplateBody.canonical_eq_of_fields {a b : TemplateBody} (free : a.FragmentFree)
    (otherFree : b.FragmentFree) (same : a.fields = b.fields) : a.canonical = b.canonical := by
  have sameLists {α β : Type} [Listed α] [Listed β] {key other : String}
      {entries : List (ListItem α)} {others : List (ListItem β)}
      (same : Fields.ownList key entries = Fields.ownList other others) :
      key = other ∧ listNodes entries = listNodes others := by
    simpa [Fields.ownList, Fields.node] using same
  cases a with
  | steps items =>
    cases b with
    | steps others =>
      rw [canonical, canonical, mapItems_eq_of_listNodes_eq Step.recoverable items free otherFree
        (sameLists same).2]
    | _ => exact absurd (sameLists same).1 (by decide)
  | jobs items =>
    cases b with
    | jobs others =>
      rw [canonical, canonical, mapItems_eq_of_listNodes_eq Job.recoverable items free otherFree
        (sameLists same).2]
    | _ => exact absurd (sameLists same).1 (by decide)
  | stages items =>
    cases b with
    | stages others =>
      rw [canonical, canonical, mapItems_eq_of_listNodes_eq Stage.recoverable items free otherFree
        (sameLists same).2]
    | _ => exact absurd (sameLists same).1 (by decide)
  | variableItems items =>
    cases b with
    | variableItems others =>
      rw [variableItems_eq_of_listNodes_eq free otherFree (sameLists same).2]
    | _ => exact absurd (sameLists same).1 (by decide)

theorem TemplateBody.length_fields (body : TemplateBody) : body.fields.length = 1 := by
  cases body <;> rfl

/-- **Documents without fragments are written alike exactly if they have the same canonical form.**
The documents need not be accepted for it. -/
theorem Document.sections_eq_iff {a b : Document} (free : a.FragmentFree)
    (otherFree : b.FragmentFree) : a.sections = b.sections ↔ a.canonical = b.canonical := by
  constructor
  · intro same
    rw [sections_eq_append, sections_eq_append] at same
    -- The list is the last entry, so that the preamble ends where it starts.
    obtain ⟨above, lists⟩ := List.append_inj' same (by
      rw [TemplateBody.length_fields, TemplateBody.length_fields])
    have samePreamble := Preamble.eq_of_fields free.1 otherFree.1 above
    have sameBody := TemplateBody.canonical_eq_of_fields free.2 otherFree.2 lists
    rw [canonical_eq_assemble, canonical_eq_assemble, samePreamble, sameBody]
  · intro same
    rw [← sections_canonical a, ← sections_canonical b, same]

/-- A job that states in full what has a shorter form. -/
def Job.verbose : Job where
  name := "Build"
  dependsOn := .multiple []
  steps := [.item { action := .checkout ⟨.repository "self", none, none, none, none, none, none⟩ }]

/-- The canonical form of the job. -/
def Job.terse : Job where
  name := "Build"
  dependsOn := .nothing
  steps := [.item { action := .checkout ⟨.selfRepository, none, none, none, none, none, none⟩ }]

/-- A pipeline with a bare preamble and a template are written alike. -/
theorem Document.sections_eq_iff_verbose :
    (singleStage (.bare []) [.item .verbose]).FragmentFree ∧
      (template [] (.jobs [.item .terse])).FragmentFree ∧
        (singleStage (.bare []) [.item .verbose]).sections =
          (template [] (.jobs [.item .terse])).sections := by
  have noFragment {α : Type} : HasNoFragment ([] : List (ListItem α)) := List.forall_mem_nil _
  have verboseFree : Job.verbose.FragmentFree :=
    ⟨noFragment, List.forall_mem_singleton.2 (.item trivial)⟩
  have terseFree : Job.terse.FragmentFree :=
    ⟨noFragment, List.forall_mem_singleton.2 (.item trivial)⟩
  have free : (singleStage (.bare []) [.item .verbose]).FragmentFree :=
    ⟨noFragment, List.forall_mem_singleton.2 (.item verboseFree)⟩
  have otherFree : (template [] (.jobs [.item .terse])).FragmentFree :=
    ⟨noFragment, List.forall_mem_singleton.2 (.item terseFree)⟩
  exact ⟨free, otherFree, (sections_eq_iff free otherFree).2 rfl⟩

end AzurePipelines
