import AzurePipelines.Proofs.Pipeline.Fields
import AzurePipelines.Proofs.Pipeline.Tree
import Mathlib

/-!
# Canonical documents

A few documents are written alike: dependencies that are stated to be none and an empty list of
them, the checkout of a repository with the name of a keyword and of the keyword, and a pipeline
whose preamble holds parameters alone and a template.  `Document.canonical` takes one of each, at
any depth, and changes nothing of what is written (`Document.sections_canonical`).
-/

namespace AzurePipelines

open Yaml (Node)

/-! ## Items at any depth -/

section Map

variable {α : Type}

mutual

/-- The entry with every item at any depth changed. -/
def ListItem.map (change : α → α) : ListItem α → ListItem α
  | .item value => .item (change value)
  | .block branches => .block (branches.map change)
  | .template reference => .template reference
  | .fragment items => .fragment (mapItems change items)
  | .foreignFragment kind size => .foreignFragment kind size

def mapItems (change : α → α) : List (ListItem α) → List (ListItem α)
  | [] => []
  | entry :: rest => entry.map change :: mapItems change rest

def Conditioned.map (change : α → α) : Conditioned α → Conditioned α
  | ⟨condition, items, elseIfs, elseItems⟩ =>
    ⟨condition, mapItems change items, mapBranches change elseIfs, mapElse change elseItems⟩

def mapBranches (change : α → α) : List (Branch α) → List (Branch α)
  | [] => []
  | branch :: rest => branch.map change :: mapBranches change rest

def Branch.map (change : α → α) : Branch α → Branch α
  | ⟨condition, items⟩ => ⟨condition, mapItems change items⟩

def mapElse (change : α → α) : Option (List (ListItem α)) → Option (List (ListItem α))
  | none => none
  | some items => some (mapItems change items)

end

mutual

theorem ListItem.map_id (entry : ListItem α) : entry.map id = entry := by
  match entry with
  | .item value => rfl
  | .block branches => rw [ListItem.map, Conditioned.map_id branches]
  | .template reference => rfl
  | .fragment items => rw [ListItem.map, mapItems_id items]
  | .foreignFragment kind size => rfl

theorem mapItems_id (entries : List (ListItem α)) : mapItems id entries = entries := by
  match entries with
  | [] => rfl
  | entry :: rest => rw [mapItems, ListItem.map_id entry, mapItems_id rest]

theorem Conditioned.map_id (branches : Conditioned α) : branches.map id = branches := by
  match branches with
  | ⟨condition, items, elseIfs, elseItems⟩ =>
    rw [Conditioned.map, mapItems_id items, mapBranches_id elseIfs, mapElse_id elseItems]

theorem mapBranches_id (branches : List (Branch α)) : mapBranches id branches = branches := by
  match branches with
  | [] => rfl
  | branch :: rest => rw [mapBranches, Branch.map_id branch, mapBranches_id rest]

theorem Branch.map_id (branch : Branch α) : branch.map id = branch := by
  match branch with
  | ⟨condition, items⟩ => rw [Branch.map, mapItems_id items]

theorem mapElse_id (elseItems : Option (List (ListItem α))) : mapElse id elseItems = elseItems := by
  match elseItems with
  | none => rfl
  | some items => rw [mapElse, mapItems_id items]

end

variable [Listed α] {change : α → α}

mutual

/-- A change that keeps the fields of items keeps what is written of a list. -/
theorem ListItem.nodes_map (kept : ∀ value, Listed.fields (change value) = Listed.fields value)
    (entry : ListItem α) : (entry.map change).nodes = entry.nodes := by
  match entry with
  | .item value => rw [ListItem.map, ListItem.nodes, ListItem.nodes, kept]
  | .block branches =>
    rw [ListItem.map, ListItem.nodes, ListItem.nodes, Conditioned.nodes_map kept branches]
  | .template reference => rw [ListItem.map]
  | .fragment items =>
    rw [ListItem.map, ListItem.nodes, ListItem.nodes, listNodes_mapItems kept items]
  | .foreignFragment kind size => rw [ListItem.map]

theorem listNodes_mapItems (kept : ∀ value, Listed.fields (change value) = Listed.fields value)
    (entries : List (ListItem α)) : listNodes (mapItems change entries) = listNodes entries := by
  match entries with
  | [] => rw [mapItems]
  | entry :: rest =>
    rw [mapItems, listNodes, listNodes, ListItem.nodes_map kept entry, listNodes_mapItems kept rest]

theorem Conditioned.nodes_map (kept : ∀ value, Listed.fields (change value) = Listed.fields value)
    (branches : Conditioned α) : (branches.map change).nodes = branches.nodes := by
  match branches with
  | ⟨condition, items, elseIfs, elseItems⟩ =>
    rw [Conditioned.map, Conditioned.nodes, Conditioned.nodes, listNodes_mapItems kept items,
      branchNodes_mapBranches kept elseIfs, elseNodes_mapElse kept elseItems]

theorem branchNodes_mapBranches
    (kept : ∀ value, Listed.fields (change value) = Listed.fields value)
    (branches : List (Branch α)) :
    branchNodes (mapBranches change branches) = branchNodes branches := by
  match branches with
  | [] => rw [mapBranches]
  | branch :: rest =>
    rw [mapBranches, branchNodes, branchNodes, Branch.node_map kept branch,
      branchNodes_mapBranches kept rest]

theorem Branch.node_map (kept : ∀ value, Listed.fields (change value) = Listed.fields value)
    (branch : Branch α) : (branch.map change).node = branch.node := by
  match branch with
  | ⟨condition, items⟩ => rw [Branch.map, Branch.node, Branch.node, listNodes_mapItems kept items]

theorem elseNodes_mapElse (kept : ∀ value, Listed.fields (change value) = Listed.fields value)
    (elseItems : Option (List (ListItem α))) :
    elseNodes (mapElse change elseItems) = elseNodes elseItems := by
  match elseItems with
  | none => rw [mapElse]
  | some items => rw [mapElse, elseNodes, elseNodes, listNodes_mapItems kept items]

end

end Map

/-! ## Steps -/

/-- The checkout of a repository with the name of a keyword is that of the keyword. -/
def CheckoutSource.canonical : CheckoutSource → CheckoutSource
  | .repository name =>
    if name = "self" then .selfRepository else if name = "none" then .nothing else .repository name
  | source => source

theorem CheckoutSource.text_canonical (source : CheckoutSource) :
    source.canonical.text = source.text := by
  cases source with
  | repository name =>
    rw [canonical]
    split
    · rename_i isSelf
      rw [isSelf]
      rfl
    · split
      · rename_i isNone
        rw [isNone]
        rfl
      · rfl
  | _ => rfl

def StepAction.canonical : StepAction → StepAction
  | .checkout c => .checkout { c with source := c.source.canonical }
  | action => action

def Step.canonical (s : Step) : Step := { s with action := s.action.canonical }

theorem Step.fields_canonical (s : Step) : s.canonical.fields = s.fields := by
  obtain ⟨action, _⟩ := s
  cases action with
  | checkout c =>
    simp only [Step.canonical, StepAction.canonical, Step.fields, StepAction.text, StepAction.key,
      StepAction.fields, CheckoutStep.fields, CheckoutSource.text_canonical]
    rfl
  | _ => rfl

/-! ## Jobs and stages -/

/-- An empty list of dependencies is none. -/
def DependsOn.canonical : DependsOn → DependsOn
  | .multiple [] => .nothing
  | dependsOn => dependsOn

theorem DependsOn.node?_canonical (d : DependsOn) : d.canonical.node? = d.node? := by
  match d with
  | .multiple [] => rfl
  | .multiple (_ :: _) => rfl
  | .previous => rfl
  | .nothing => rfl
  | .single _ => rfl

def Job.canonical (j : Job) : Job :=
  { j with dependsOn := j.dependsOn.canonical, steps := mapItems Step.canonical j.steps }

theorem Job.fields_canonical (j : Job) : j.canonical.fields = j.fields := by
  have steps := listNodes_mapItems Step.fields_canonical j.steps
  simp only [Job.canonical, Job.fields, Fields.ownList, DependsOn.node?_canonical, steps]

def Stage.canonical (s : Stage) : Stage :=
  { s with dependsOn := s.dependsOn.canonical, jobs := mapItems Job.canonical s.jobs }

theorem Stage.fields_canonical (s : Stage) : s.canonical.fields = s.fields := by
  have jobs := listNodes_mapItems Job.fields_canonical s.jobs
  simp only [Stage.canonical, Stage.fields, Fields.ownList, DependsOn.node?_canonical, jobs]

/-! ## Documents -/

/-- The preamble holds nothing but declared parameters. -/
def Preamble.isBare (p : Preamble) : Bool :=
  p.name.isNone && p.trigger.isNone && p.pr.isNone && p.schedules.isEmpty &&
    p.variableItems.isEmpty && p.pool.isNone

def TemplateBody.canonical : TemplateBody → TemplateBody
  | .steps items => .steps (mapItems Step.canonical items)
  | .jobs items => .jobs (mapItems Job.canonical items)
  | .stages items => .stages (mapItems Stage.canonical items)
  | .variableItems items => .variableItems items

/-- The document that stands for all that are written like it.  A pipeline with a bare preamble is
taken for a template. -/
def Document.canonical : Document → Document
  | .singleStage preamble jobs =>
    if preamble.isBare then .template preamble.parameters (.jobs (mapItems Job.canonical jobs))
    else .singleStage preamble (mapItems Job.canonical jobs)
  | .multiStage preamble stages =>
    if preamble.isBare then
      .template preamble.parameters (.stages (mapItems Stage.canonical stages))
    else .multiStage preamble (mapItems Stage.canonical stages)
  | .template parameters body => .template parameters body.canonical

theorem TemplateBody.fields_canonical (body : TemplateBody) :
    body.canonical.fields = body.fields := by
  cases body with
  | steps items =>
    rw [canonical, fields, fields, Fields.ownList, Fields.ownList,
      listNodes_mapItems Step.fields_canonical]
  | jobs items =>
    rw [canonical, fields, fields, Fields.ownList, Fields.ownList,
      listNodes_mapItems Job.fields_canonical]
  | stages items =>
    rw [canonical, fields, fields, Fields.ownList, Fields.ownList,
      listNodes_mapItems Stage.fields_canonical]
  | variableItems items => rfl

/-- Of a bare preamble nothing is written but its parameters. -/
theorem Preamble.fields_of_isBare {p : Preamble} (bare : p.isBare = true) :
    p.fields = Fields.items "parameters" (p.parameters.map DeclaredParameter.node) := by
  obtain ⟨name, trigger, pr, schedules, parameters, variableItems, pool⟩ := p
  simp only [isBare, Bool.and_eq_true, Option.isNone_iff_eq_none, List.isEmpty_iff] at bare
  obtain ⟨⟨⟨⟨⟨rfl, rfl⟩, rfl⟩, rfl⟩, rfl⟩, rfl⟩ := bare
  simp [Preamble.fields, Fields.optionalText, Fields.optionalNode, Fields.items, Fields.list,
    listNodes]

/-- **A document and its canonical form are written alike.** -/
theorem Document.sections_canonical (d : Document) : d.canonical.sections = d.sections := by
  match d with
  | .singleStage preamble jobs =>
    have same := listNodes_mapItems Job.fields_canonical jobs
    rw [canonical]
    split
    · rename_i bare
      rw [sections, sections, TemplateBody.fields, Fields.ownList, Fields.ownList, same,
        Preamble.fields_of_isBare bare]
    · rw [sections, sections, Fields.ownList, Fields.ownList, same]
  | .multiStage preamble stages =>
    have same := listNodes_mapItems Stage.fields_canonical stages
    rw [canonical]
    split
    · rename_i bare
      rw [sections, sections, TemplateBody.fields, Fields.ownList, Fields.ownList, same,
        Preamble.fields_of_isBare bare]
    · rw [sections, sections, Fields.ownList, Fields.ownList, same]
  | .template parameters body => rw [canonical, sections, sections, TemplateBody.fields_canonical]

end AzurePipelines
