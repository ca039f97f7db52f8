import AzurePipelines.Proofs.Pipeline.PathText
import AzurePipelines.Proofs.Pipeline.Tree
import Mathlib

/-!
# Places of a document

A `TreePlace` is a node of a document or one of its lists.  `TreePlace.edges` are the steps from a
place to those below it, in the order in which a document is read, so that a path leads to a place
step by step (`Document.at?`).  Places are larger than those below them
(`TreePlace.sizeOf_lt_of_mem_edges`), and no two steps from a place are the same
(`TreePlace.leadApart_edges`).
-/

namespace AzurePipelines

/-! ## Places and steps -/

/-- A node of a document, or one of its lists as it is declared. -/
inductive TreePlace where
  | node (node : TreeNode)
  | schedules (schedules : List Schedule)
  | parameters (parameters : List DeclaredParameter)
  | variableEntries (entries : List (ListItem Variable))
  | stepEntries (entries : List (ListItem Step))
  | jobEntries (entries : List (ListItem Job))
  | stageEntries (entries : List (ListItem Stage))

/-- A step to a place. -/
abbrev TreeEdge := PathStep × TreePlace

/-- A place with the path to it. -/
abbrev TreeVisit := TreePath × TreePlace

/-- The nodes of a list with the steps to them, which count from `start`. -/
def numbered {β : Type} (step : Nat → PathStep) (node : β → TreeNode) (start : Nat)
    (values : List β) : List TreeEdge :=
  (values.zipIdx start).map fun (value, i) => (step i, .node (node value))

/-- From an item to what it holds, from a block to its lists, from a fragment to its entries. -/
def ListItem.edges {α : Type} (held : α → List TreeEdge) (node : ListItem α → TreeNode)
    (list : List (ListItem α) → TreePlace) : ListItem α → List TreeEdge
  | .item value => held value
  | .block branches =>
    (.ifBranch, list branches.items) ::
      ((branches.elseIfs.zipIdx.map fun (branch, k) => (.elseIfBranch k, list branch.items)) ++
        branches.elseItems.toList.map fun items => (.elseBranch, list items))
  | .fragment items => numbered .fragmentEntry node 0 items
  | .template _ | .foreignFragment _ _ => []

def poolEdge (pool : Option Pool) : List TreeEdge :=
  pool.toList.map fun given => (.field "pool", .node (.pool given))

def Preamble.edges (p : Preamble) : List TreeEdge :=
  (.field "schedules", .schedules p.schedules) :: (.field "parameters", .parameters p.parameters) ::
    (.field "variables", .variableEntries p.variableItems) :: poolEdge p.pool

def Job.edges (j : Job) : List TreeEdge :=
  poolEdge j.pool ++
    [(.field "variables", .variableEntries j.variableItems), (.field "steps", .stepEntries j.steps)]

def Stage.edges (s : Stage) : List TreeEdge :=
  poolEdge s.pool ++
    [(.field "variables", .variableEntries s.variableItems), (.field "jobs", .jobEntries s.jobs)]

def TemplateBody.edge : TemplateBody → TreeEdge
  | .steps items => (.field "steps", .stepEntries items)
  | .jobs items => (.field "jobs", .jobEntries items)
  | .stages items => (.field "stages", .stageEntries items)
  | .variableItems items => (.field "variables", .variableEntries items)

def Document.edges : Document → List TreeEdge
  | .singleStage preamble jobs => preamble.edges ++ [(.field "jobs", .jobEntries jobs)]
  | .multiStage preamble stages => preamble.edges ++ [(.field "stages", .stageEntries stages)]
  | .template parameters body => [(.field "parameters", .parameters parameters), body.edge]

namespace TreePlace

/-- The steps from a place to the places below it, in the order in which these are read. -/
def edges : TreePlace → List TreeEdge
  | node (.document d) => d.edges
  | node (.variableEntry entry) => entry.edges (fun _ => []) .variableEntry variableEntries
  | node (.stepEntry entry) => entry.edges (fun _ => []) .stepEntry stepEntries
  | node (.jobEntry entry) => entry.edges Job.edges .jobEntry jobEntries
  | node (.stageEntry entry) => entry.edges Stage.edges .stageEntry stageEntries
  | node (.schedule _) | node (.parameter _) | node (.pool _) => []
  | schedules values => numbered .index .schedule 0 values
  | parameters values => numbered .index .parameter 0 values
  | variableEntries entries => numbered .index .variableEntry 0 entries
  | stepEntries entries => numbered .index .stepEntry 0 entries
  | jobEntries entries => numbered .index .jobEntry 0 entries
  | stageEntries entries => numbered .index .stageEntry 0 entries

/-- The place that one step leads to. -/
def follow (place : TreePlace) (step : PathStep) : Option TreePlace := place.edges.lookup step

end TreePlace

/-- The place of a document at a path that is given as text. -/
def Document.at? (d : Document) (text : String) : Option TreePlace :=
  (TreePath.ofText? text).bind fun path => path.foldlM TreePlace.follow (.node (.document d))

/-! ## Depth -/

theorem sizeOf_add_one_lt_of_mem {β : Type} [SizeOf β] {value : β} {values : List β}
    (member : value ∈ values) : sizeOf value + 1 < sizeOf values := by
  induction member with
  | head values =>
    have filled : 0 < sizeOf values := by cases values <;> simp
    rw [List.cons.sizeOf_spec]
    omega
  | tail other _ ih =>
    rw [List.cons.sizeOf_spec]
    omega

theorem exists_of_mem_numbered {β : Type} {step : Nat → PathStep} {node : β → TreeNode}
    {start : Nat} {values : List β} {edge : TreeEdge}
    (member : edge ∈ numbered step node start values) :
    ∃ value ∈ values, ∃ i, edge = (step i, .node (node value)) := by
  obtain ⟨⟨value, i⟩, inList, rfl⟩ := List.mem_map.1 member
  exact ⟨value, List.fst_mem_of_mem_zipIdx inList, i, rfl⟩

theorem sizeOf_lt_of_mem_numbered {β : Type} [SizeOf β] {step : Nat → PathStep}
    {node : β → TreeNode} (size : ∀ value, sizeOf (node value) = 1 + sizeOf value) {start : Nat}
    {values : List β} {edge : TreeEdge} (member : edge ∈ numbered step node start values) :
    sizeOf edge.2 < 1 + sizeOf values := by
  obtain ⟨value, inList, i, rfl⟩ := exists_of_mem_numbered member
  have smaller := sizeOf_add_one_lt_of_mem inList
  rw [TreePlace.node.sizeOf_spec, size]
  omega

theorem sizeOf_lt_of_mem_poolEdge {pool : Option Pool} {edge : TreeEdge}
    (member : edge ∈ poolEdge pool) : sizeOf edge.2 < 2 + sizeOf pool := by
  obtain ⟨given, inList, rfl⟩ := List.mem_map.1 member
  rw [Option.mem_toList] at inList
  rw [TreePlace.node.sizeOf_spec, TreeNode.pool.sizeOf_spec, inList, Option.some.sizeOf_spec]
  omega

theorem ListItem.sizeOf_lt_of_mem_edges {α : Type} [SizeOf α] {held : α → List TreeEdge}
    {node : ListItem α → TreeNode} {list : List (ListItem α) → TreePlace}
    (heldSize : ∀ value, ∀ edge ∈ held value, sizeOf edge.2 < 2 + sizeOf value)
    (nodeSize : ∀ entry, sizeOf (node entry) = 1 + sizeOf entry)
    (listSize : ∀ entries, sizeOf (list entries) = 1 + sizeOf entries) {entry : ListItem α}
    {edge : TreeEdge} (member : edge ∈ entry.edges held node list) :
    sizeOf edge.2 < 1 + sizeOf entry := by
  cases entry with
  | item value =>
    have smaller := heldSize value edge member
    rw [ListItem.item.sizeOf_spec]
    omega
  | template _ => cases member
  | foreignFragment _ _ => cases member
  | fragment items =>
    have smaller := sizeOf_lt_of_mem_numbered nodeSize member
    rw [ListItem.fragment.sizeOf_spec]
    omega
  | block branches =>
    obtain ⟨condition, items, elseIfs, elseItems⟩ := branches
    simp only [edges, List.mem_cons, List.mem_append, List.mem_map] at member
    rw [ListItem.block.sizeOf_spec, Conditioned.mk.sizeOf_spec]
    rcases member with rfl | ⟨⟨⟨branchCondition, branchItems⟩, k⟩, inList, rfl⟩ |
      ⟨others, inList, rfl⟩
    · rw [listSize]
      omega
    · have smaller := List.sizeOf_lt_of_mem (List.fst_mem_of_mem_zipIdx inList)
      rw [Branch.mk.sizeOf_spec] at smaller
      change sizeOf (list branchItems) < _
      rw [listSize]
      omega
    · rw [Option.mem_toList] at inList
      rw [listSize, inList, Option.some.sizeOf_spec]
      omega

theorem Preamble.sizeOf_lt_of_mem_edges {p : Preamble} {edge : TreeEdge}
    (member : edge ∈ p.edges) : sizeOf edge.2 < 2 + sizeOf p := by
  obtain ⟨name, trigger, pr, schedules, parameters, variableItems, pool⟩ := p
  simp only [edges, List.mem_cons] at member
  rw [Preamble.mk.sizeOf_spec]
  rcases member with rfl | rfl | rfl | member
  · rw [TreePlace.schedules.sizeOf_spec]
    omega
  · rw [TreePlace.parameters.sizeOf_spec]
    omega
  · rw [TreePlace.variableEntries.sizeOf_spec]
    omega
  · have smaller := sizeOf_lt_of_mem_poolEdge member
    omega

theorem Job.sizeOf_lt_of_mem_edges {j : Job} {edge : TreeEdge} (member : edge ∈ j.edges) :
    sizeOf edge.2 < 2 + sizeOf j := by
  cases j
  simp only [edges, List.mem_append, List.mem_cons, List.not_mem_nil, or_false] at member
  rw [Job.mk.sizeOf_spec]
  rcases member with member | rfl | rfl
  · have smaller := sizeOf_lt_of_mem_poolEdge member
    omega
  · rw [TreePlace.variableEntries.sizeOf_spec]
    omega
  · rw [TreePlace.stepEntries.sizeOf_spec]
    omega

theorem Stage.sizeOf_lt_of_mem_edges {s : Stage} {edge : TreeEdge}
    (member : edge ∈ s.edges) : sizeOf edge.2 < 2 + sizeOf s := by
  cases s
  simp only [edges, List.mem_append, List.mem_cons, List.not_mem_nil, or_false] at member
  rw [Stage.mk.sizeOf_spec]
  rcases member with member | rfl | rfl
  · have smaller := sizeOf_lt_of_mem_poolEdge member
    omega
  · rw [TreePlace.variableEntries.sizeOf_spec]
    omega
  · rw [TreePlace.jobEntries.sizeOf_spec]
    omega

theorem TemplateBody.sizeOf_edge (body : TemplateBody) : sizeOf body.edge.2 = sizeOf body := by
  cases body with
  | steps items => rw [edge, TreePlace.stepEntries.sizeOf_spec, TemplateBody.steps.sizeOf_spec]
  | jobs items => rw [edge, TreePlace.jobEntries.sizeOf_spec, TemplateBody.jobs.sizeOf_spec]
  | stages items => rw [edge, TreePlace.stageEntries.sizeOf_spec, TemplateBody.stages.sizeOf_spec]
  | variableItems items =>
    rw [edge, TreePlace.variableEntries.sizeOf_spec, TemplateBody.variableItems.sizeOf_spec]

theorem Document.sizeOf_lt_of_mem_edges {d : Document} {edge : TreeEdge}
    (member : edge ∈ d.edges) : sizeOf edge.2 < 1 + sizeOf d := by
  cases d with
  | singleStage preamble jobs =>
    rw [edges, List.mem_append, List.mem_singleton] at member
    rw [Document.singleStage.sizeOf_spec]
    rcases member with member | rfl
    · have smaller := Preamble.sizeOf_lt_of_mem_edges member
      omega
    · rw [TreePlace.jobEntries.sizeOf_spec]
      omega
  | multiStage preamble stages =>
    rw [edges, List.mem_append, List.mem_singleton] at member
    rw [Document.multiStage.sizeOf_spec]
    rcases member with member | rfl
    · have smaller := Preamble.sizeOf_lt_of_mem_edges member
      omega
    · rw [TreePlace.stageEntries.sizeOf_spec]
      omega
  | template parameters body =>
    simp only [edges, List.mem_cons, List.not_mem_nil, or_false] at member
    rw [Document.template.sizeOf_spec]
    rcases member with rfl | rfl
    · rw [TreePlace.parameters.sizeOf_spec]
      omega
    · rw [body.sizeOf_edge]
      omega

namespace TreePlace

/-- A place is larger than the places below it. -/
theorem sizeOf_lt_of_mem_edges {place : TreePlace} {edge : TreeEdge}
    (member : edge ∈ place.edges) : sizeOf edge.2 < sizeOf place := by
  match place with
  | node (.document d) =>
    have smaller := Document.sizeOf_lt_of_mem_edges member
    rw [node.sizeOf_spec, TreeNode.document.sizeOf_spec]
    omega
  | node (.schedule _) => cases member
  | node (.parameter _) => cases member
  | node (.pool _) => cases member
  | node (.variableEntry entry) =>
    have smaller := ListItem.sizeOf_lt_of_mem_edges (fun _ _ => List.not_mem_nil.elim)
      TreeNode.variableEntry.sizeOf_spec variableEntries.sizeOf_spec member
    rw [node.sizeOf_spec, TreeNode.variableEntry.sizeOf_spec]
    omega
  | node (.stepEntry entry) =>
    have smaller := ListItem.sizeOf_lt_of_mem_edges (fun _ _ => List.not_mem_nil.elim)
      TreeNode.stepEntry.sizeOf_spec stepEntries.sizeOf_spec member
    rw [node.sizeOf_spec, TreeNode.stepEntry.sizeOf_spec]
    omega
  | node (.jobEntry entry) =>
    have smaller := ListItem.sizeOf_lt_of_mem_edges (fun _ _ => Job.sizeOf_lt_of_mem_edges)
      TreeNode.jobEntry.sizeOf_spec jobEntries.sizeOf_spec member
    rw [node.sizeOf_spec, TreeNode.jobEntry.sizeOf_spec]
    omega
  | node (.stageEntry entry) =>
    have smaller := ListItem.sizeOf_lt_of_mem_edges (fun _ _ => Stage.sizeOf_lt_of_mem_edges)
      TreeNode.stageEntry.sizeOf_spec stageEntries.sizeOf_spec member
    rw [node.sizeOf_spec, TreeNode.stageEntry.sizeOf_spec]
    omega
  | schedules values =>
    rw [schedules.sizeOf_spec]
    exact sizeOf_lt_of_mem_numbered TreeNode.schedule.sizeOf_spec member
  | parameters values =>
    rw [parameters.sizeOf_spec]
    exact sizeOf_lt_of_mem_numbered TreeNode.parameter.sizeOf_spec member
  | variableEntries entries =>
    rw [variableEntries.sizeOf_spec]
    exact sizeOf_lt_of_mem_numbered TreeNode.variableEntry.sizeOf_spec member
  | stepEntries entries =>
    rw [stepEntries.sizeOf_spec]
    exact sizeOf_lt_of_mem_numbered TreeNode.stepEntry.sizeOf_spec member
  | jobEntries entries =>
    rw [jobEntries.sizeOf_spec]
    exact sizeOf_lt_of_mem_numbered TreeNode.jobEntry.sizeOf_spec member
  | stageEntries entries =>
    rw [stageEntries.sizeOf_spec]
    exact sizeOf_lt_of_mem_numbered TreeNode.stageEntry.sizeOf_spec member

end TreePlace

/-! ## Steps lead apart -/

instance : DecidablePred PathStep.IsPlain
  | .field name => inferInstanceAs (Decidable (IsFieldName name))
  | .index _ | .ifBranch | .elseIfBranch _ | .elseBranch | .fragmentEntry _ => isTrue trivial

/-- No two of the steps are the same, and each can be told by its text. -/
def LeadApart (steps : List PathStep) : Prop := steps.Nodup ∧ ∀ step ∈ steps, step.IsPlain

instance (steps : List PathStep) : Decidable (LeadApart steps) :=
  inferInstanceAs (Decidable (_ ∧ _))

theorem leadApart_numbered {β : Type} {step : Nat → PathStep} (injective : Function.Injective step)
    (plain : ∀ i, (step i).IsPlain) (node : β → TreeNode) (start : Nat) (values : List β) :
    LeadApart ((numbered step node start values).map Prod.fst) := by
  have steps : (numbered step node start values).map Prod.fst =
      (List.range' start values.length).map step := by
    rw [numbered, List.map_map, ← List.zipIdx_map_snd, List.map_map]
    rfl
  rw [steps]
  exact ⟨List.Nodup.map injective List.nodup_range', List.forall_mem_map.2 fun i _ => plain i⟩

theorem ListItem.leadApart_edges {α : Type} (held : α → List TreeEdge)
    (heldApart : ∀ value, LeadApart ((held value).map Prod.fst)) (node : ListItem α → TreeNode)
    (list : List (ListItem α) → TreePlace) (entry : ListItem α) :
    LeadApart ((entry.edges held node list).map Prod.fst) := by
  cases entry with
  | item value => exact heldApart value
  | template _ => exact ⟨.nil, List.forall_mem_nil _⟩
  | foreignFragment _ _ => exact ⟨.nil, List.forall_mem_nil _⟩
  | fragment items =>
    exact leadApart_numbered (fun _ _ => PathStep.fragmentEntry.inj) (fun _ => trivial) node 0 items
  | block branches =>
    obtain ⟨condition, items, elseIfs, elseItems⟩ := branches
    have elseIfSteps : (elseIfs.zipIdx.map fun (branch, k) =>
        (PathStep.elseIfBranch k, list branch.items)).map Prod.fst =
        (List.range' 0 elseIfs.length).map .elseIfBranch := by
      rw [List.map_map, ← List.zipIdx_map_snd, List.map_map]
      rfl
    rw [edges, List.map_cons, List.map_append, elseIfSteps]
    have distinct : ((List.range' 0 elseIfs.length).map PathStep.elseIfBranch).Nodup :=
      List.Nodup.map (fun _ _ => PathStep.elseIfBranch.inj) List.nodup_range'
    refine ⟨?_, ?_⟩
    · cases elseItems <;> simp [distinct, List.nodup_append]
    · simp only [List.forall_mem_cons, List.forall_mem_append, List.forall_mem_map]
      exact ⟨trivial, fun _ _ => trivial, fun _ _ => trivial⟩

theorem Job.leadApart_edges (j : Job) : LeadApart (j.edges.map Prod.fst) := by
  rw [edges]
  cases j.pool with
  | none => exact (by decide : LeadApart (["variables", "steps"].map .field))
  | some _ => exact (by decide : LeadApart (["pool", "variables", "steps"].map .field))

theorem Stage.leadApart_edges (s : Stage) : LeadApart (s.edges.map Prod.fst) := by
  rw [edges]
  cases s.pool with
  | none => exact (by decide : LeadApart (["variables", "jobs"].map .field))
  | some _ => exact (by decide : LeadApart (["pool", "variables", "jobs"].map .field))

/-- A document is entered by its fields. -/
theorem Document.exists_fields_edges (d : Document) :
    ∃ names : List String, d.edges.map Prod.fst = names.map .field ∧
      LeadApart (names.map .field) := by
  cases d with
  | singleStage preamble jobs =>
    rw [edges, Preamble.edges]
    cases preamble.pool with
    | none => exact ⟨["schedules", "parameters", "variables", "jobs"], rfl, by decide⟩
    | some _ => exact ⟨["schedules", "parameters", "variables", "pool", "jobs"], rfl, by decide⟩
  | multiStage preamble stages =>
    rw [edges, Preamble.edges]
    cases preamble.pool with
    | none => exact ⟨["schedules", "parameters", "variables", "stages"], rfl, by decide⟩
    | some _ => exact ⟨["schedules", "parameters", "variables", "pool", "stages"], rfl, by decide⟩
  | template parameters body =>
    cases body with
    | steps _ => exact ⟨["parameters", "steps"], rfl, by decide⟩
    | jobs _ => exact ⟨["parameters", "jobs"], rfl, by decide⟩
    | stages _ => exact ⟨["parameters", "stages"], rfl, by decide⟩
    | variableItems _ => exact ⟨["parameters", "variables"], rfl, by decide⟩

theorem Document.exists_field_of_mem_edges {d : Document} {edge : TreeEdge}
    (member : edge ∈ d.edges) : ∃ name, edge.1 = .field name := by
  obtain ⟨names, steps, _⟩ := d.exists_fields_edges
  have inSteps : edge.1 ∈ d.edges.map Prod.fst := List.mem_map_of_mem member
  rw [steps] at inSteps
  obtain ⟨name, _, same⟩ := List.mem_map.1 inSteps
  exact ⟨name, same.symm⟩

namespace TreePlace

theorem leadApart_edges (place : TreePlace) : LeadApart (place.edges.map Prod.fst) := by
  have numbered {β : Type} (node : β → TreeNode) (values : List β) :
      LeadApart ((numbered .index node 0 values).map Prod.fst) :=
    leadApart_numbered (fun _ _ => PathStep.index.inj) (fun _ => trivial) node 0 values
  have nothing : LeadApart [] := ⟨.nil, List.forall_mem_nil _⟩
  match place with
  | node (.document d) =>
    obtain ⟨names, steps, apart⟩ := d.exists_fields_edges
    exact steps ▸ apart
  | node (.schedule _) => exact nothing
  | node (.parameter _) => exact nothing
  | node (.pool _) => exact nothing
  | node (.variableEntry entry) => exact entry.leadApart_edges (fun _ => []) (fun _ => nothing) _ _
  | node (.stepEntry entry) => exact entry.leadApart_edges (fun _ => []) (fun _ => nothing) _ _
  | node (.jobEntry entry) => exact entry.leadApart_edges Job.edges Job.leadApart_edges _ _
  | node (.stageEntry entry) => exact entry.leadApart_edges Stage.edges Stage.leadApart_edges _ _
  | schedules values => exact numbered _ values
  | parameters values => exact numbered _ values
  | variableEntries entries => exact numbered _ entries
  | stepEntries entries => exact numbered _ entries
  | jobEntries entries => exact numbered _ entries
  | stageEntries entries => exact numbered _ entries

theorem follow_of_mem_edges {place : TreePlace} {edge : TreeEdge}
    (member : edge ∈ place.edges) : place.follow edge.1 = some edge.2 :=
  lookup_eq_some_of_mem place.leadApart_edges.1 member

theorem isPlain_of_mem_edges {place : TreePlace} {edge : TreeEdge}
    (member : edge ∈ place.edges) : edge.1.IsPlain :=
  place.leadApart_edges.2 edge.1 (List.mem_map_of_mem member)

end TreePlace

end AzurePipelines
