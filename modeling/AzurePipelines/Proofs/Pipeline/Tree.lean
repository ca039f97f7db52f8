import AzurePipelines.Pipeline.Document
import Mathlib

/-!
# The tree of a document

A document is a tree of nodes: its entries of lists, its pools, schedules and declared parameters.
`TreeNode.children` are the nodes directly below a node, those of all branches of a block and of a
fragment among them, and `TreeNode.Reaches` leads from a node to itself and to all nodes below it.
What holds of a node exactly if a rule holds of it, and the same of its children, holds exactly if
the rule holds of every node that is reached (`TreeNode.iff_forall_reaches`).
-/

namespace AzurePipelines

/-! ## Nodes and their children -/

/-- A node of the tree of a document. -/
inductive TreeNode where
  | document (document : Document)
  | schedule (schedule : Schedule)
  | parameter (parameter : DeclaredParameter)
  | pool (pool : Pool)
  | variableEntry (entry : ListItem Variable)
  | stepEntry (entry : ListItem Step)
  | jobEntry (entry : ListItem Job)
  | stageEntry (entry : ListItem Stage)

/-- The entries directly inside of an entry: those of every branch of a block, and of a fragment. -/
def ListItem.inner {α : Type} : ListItem α → List (ListItem α)
  | .block branches =>
    branches.items ++ (branches.elseIfs.flatMap Branch.items ++ branches.elseItems.getD [])
  | .fragment items => items
  | .item _ | .template _ | .foreignFragment _ _ => []

namespace TreeNode

def ofPreamble (preamble : Preamble) : List TreeNode :=
  preamble.schedules.map schedule ++ preamble.parameters.map parameter ++
    preamble.variableItems.map variableEntry ++ preamble.pool.toList.map pool

def ofJob (job : Job) : List TreeNode :=
  job.pool.toList.map pool ++ job.variableItems.map variableEntry ++ job.steps.map stepEntry

def ofStage (stage : Stage) : List TreeNode :=
  stage.pool.toList.map pool ++ stage.variableItems.map variableEntry ++ stage.jobs.map jobEntry

def ofTemplateBody : TemplateBody → List TreeNode
  | .steps items => items.map stepEntry
  | .jobs items => items.map jobEntry
  | .stages items => items.map stageEntry
  | .variableItems items => items.map variableEntry

/-- The nodes directly below a node. -/
def children : TreeNode → List TreeNode
  | document (.singleStage preamble jobs) => ofPreamble preamble ++ jobs.map jobEntry
  | document (.multiStage preamble stages) => ofPreamble preamble ++ stages.map stageEntry
  | document (.template parameters body) => parameters.map parameter ++ ofTemplateBody body
  | jobEntry (.item job) => ofJob job
  | stageEntry (.item stage) => ofStage stage
  | variableEntry entry => entry.inner.map variableEntry
  | stepEntry entry => entry.inner.map stepEntry
  | jobEntry entry => entry.inner.map jobEntry
  | stageEntry entry => entry.inner.map stageEntry
  | schedule _ | parameter _ | pool _ => []

/-- From a node to itself and to the nodes at any depth below it. -/
abbrev Reaches : TreeNode → TreeNode → Prop :=
  Relation.ReflTransGen fun upper lower => lower ∈ upper.children

end TreeNode

/-! ## Depth -/

theorem ListItem.sizeOf_lt_of_mem_inner {α : Type} [SizeOf α] {entry inner : ListItem α}
    (member : inner ∈ entry.inner) : sizeOf inner < sizeOf entry := by
  cases entry with
  | item _ => cases member
  | template _ => cases member
  | foreignFragment _ _ => cases member
  | fragment items =>
    have below := List.sizeOf_lt_of_mem member
    simp only [ListItem.inner] at below
    rw [ListItem.fragment.sizeOf_spec]
    omega
  | block block =>
    obtain ⟨condition, items, elseIfs, elseItems⟩ := block
    simp only [ListItem.inner, List.mem_append, List.mem_flatMap] at member
    rw [ListItem.block.sizeOf_spec, Conditioned.mk.sizeOf_spec]
    rcases member with member | ⟨branch, inBlock, member⟩ | member
    · have below := List.sizeOf_lt_of_mem member
      omega
    · obtain ⟨branchCondition, branchItems⟩ := branch
      have below : sizeOf inner < sizeOf branchItems := List.sizeOf_lt_of_mem member
      have branchBelow := List.sizeOf_lt_of_mem inBlock
      rw [Branch.mk.sizeOf_spec] at branchBelow
      omega
    · cases elseItems with
      | none => cases member
      | some others =>
        have below : sizeOf inner < sizeOf others := List.sizeOf_lt_of_mem member
        rw [Option.some.sizeOf_spec]
        omega

namespace TreeNode

section Wrapped

variable {α : Type} [SizeOf α] {wrap : α → TreeNode} {node : TreeNode}

theorem sizeOf_lt_of_mem_map (size : ∀ a, sizeOf (wrap a) = 1 + sizeOf a) {items : List α}
    (member : node ∈ items.map wrap) : sizeOf node < 1 + sizeOf items := by
  obtain ⟨item, below, rfl⟩ := List.mem_map.1 member
  have lt := List.sizeOf_lt_of_mem below
  rw [size]
  omega

theorem sizeOf_lt_of_mem_map_toList (size : ∀ a, sizeOf (wrap a) = 1 + sizeOf a) {given : Option α}
    (member : node ∈ given.toList.map wrap) : sizeOf node < 1 + sizeOf given := by
  obtain ⟨item, below, rfl⟩ := List.mem_map.1 member
  rw [Option.mem_toList] at below
  rw [size, below, Option.some.sizeOf_spec]
  omega

theorem sizeOf_lt_of_mem_map_inner {wrap : ListItem α → TreeNode}
    (size : ∀ entry, sizeOf (wrap entry) = 1 + sizeOf entry) {entry : ListItem α}
    (member : node ∈ entry.inner.map wrap) : sizeOf node < sizeOf (wrap entry) := by
  obtain ⟨inner, below, rfl⟩ := List.mem_map.1 member
  have lt := ListItem.sizeOf_lt_of_mem_inner below
  rw [size, size]
  omega

end Wrapped

theorem sizeOf_lt_of_mem_ofPreamble {preamble : Preamble} {node : TreeNode}
    (member : node ∈ ofPreamble preamble) : sizeOf node < 2 + sizeOf preamble := by
  obtain ⟨name, trigger, pr, schedules, parameters, variableItems, pool⟩ := preamble
  simp only [ofPreamble, List.mem_append] at member
  rw [Preamble.mk.sizeOf_spec]
  rcases member with ((member | member) | member) | member
  · have lt := sizeOf_lt_of_mem_map schedule.sizeOf_spec member
    omega
  · have lt := sizeOf_lt_of_mem_map parameter.sizeOf_spec member
    omega
  · have lt := sizeOf_lt_of_mem_map variableEntry.sizeOf_spec member
    omega
  · have lt := sizeOf_lt_of_mem_map_toList TreeNode.pool.sizeOf_spec member
    omega

theorem sizeOf_lt_of_mem_ofJob {job : Job} {node : TreeNode} (member : node ∈ ofJob job) :
    sizeOf node < 2 + sizeOf job := by
  cases job
  simp only [ofJob, List.mem_append] at member
  rw [Job.mk.sizeOf_spec]
  rcases member with (member | member) | member
  · have lt := sizeOf_lt_of_mem_map_toList pool.sizeOf_spec member
    omega
  · have lt := sizeOf_lt_of_mem_map variableEntry.sizeOf_spec member
    omega
  · have lt := sizeOf_lt_of_mem_map stepEntry.sizeOf_spec member
    omega

theorem sizeOf_lt_of_mem_ofStage {stage : Stage} {node : TreeNode} (member : node ∈ ofStage stage) :
    sizeOf node < 2 + sizeOf stage := by
  cases stage
  simp only [ofStage, List.mem_append] at member
  rw [Stage.mk.sizeOf_spec]
  rcases member with (member | member) | member
  · have lt := sizeOf_lt_of_mem_map_toList pool.sizeOf_spec member
    omega
  · have lt := sizeOf_lt_of_mem_map variableEntry.sizeOf_spec member
    omega
  · have lt := sizeOf_lt_of_mem_map jobEntry.sizeOf_spec member
    omega

theorem sizeOf_lt_of_mem_ofTemplateBody {body : TemplateBody} {node : TreeNode}
    (member : node ∈ ofTemplateBody body) : sizeOf node < 1 + sizeOf body := by
  cases body with
  | steps items =>
    have lt := sizeOf_lt_of_mem_map stepEntry.sizeOf_spec member
    rw [TemplateBody.steps.sizeOf_spec]
    omega
  | jobs items =>
    have lt := sizeOf_lt_of_mem_map jobEntry.sizeOf_spec member
    rw [TemplateBody.jobs.sizeOf_spec]
    omega
  | stages items =>
    have lt := sizeOf_lt_of_mem_map stageEntry.sizeOf_spec member
    rw [TemplateBody.stages.sizeOf_spec]
    omega
  | variableItems items =>
    have lt := sizeOf_lt_of_mem_map variableEntry.sizeOf_spec member
    rw [TemplateBody.variableItems.sizeOf_spec]
    omega

theorem sizeOf_lt_of_mem_ofDocument {d : Document} {node : TreeNode}
    (member : node ∈ (document d).children) : sizeOf node < sizeOf (document d) := by
  rw [document.sizeOf_spec]
  match d with
  | .singleStage preamble jobs =>
    rw [Document.singleStage.sizeOf_spec]
    rcases List.mem_append.1 member with member | member
    · have lt := sizeOf_lt_of_mem_ofPreamble member
      omega
    · have lt := sizeOf_lt_of_mem_map jobEntry.sizeOf_spec member
      omega
  | .multiStage preamble stages =>
    rw [Document.multiStage.sizeOf_spec]
    rcases List.mem_append.1 member with member | member
    · have lt := sizeOf_lt_of_mem_ofPreamble member
      omega
    · have lt := sizeOf_lt_of_mem_map stageEntry.sizeOf_spec member
      omega
  | .template parameters body =>
    rw [Document.template.sizeOf_spec]
    rcases List.mem_append.1 member with member | member
    · have lt := sizeOf_lt_of_mem_map parameter.sizeOf_spec member
      omega
    · have lt := sizeOf_lt_of_mem_ofTemplateBody member
      omega

/-- A node is larger than the nodes below it. -/
theorem sizeOf_lt_of_mem_children {upper lower : TreeNode} (member : lower ∈ upper.children) :
    sizeOf lower < sizeOf upper := by
  match upper with
  | document d => exact sizeOf_lt_of_mem_ofDocument member
  | schedule _ => cases member
  | parameter _ => cases member
  | pool _ => cases member
  | jobEntry (.item job) =>
    have lt := sizeOf_lt_of_mem_ofJob member
    rw [jobEntry.sizeOf_spec, ListItem.item.sizeOf_spec]
    omega
  | stageEntry (.item stage) =>
    have lt := sizeOf_lt_of_mem_ofStage member
    rw [stageEntry.sizeOf_spec, ListItem.item.sizeOf_spec]
    omega
  | variableEntry entry => exact sizeOf_lt_of_mem_map_inner variableEntry.sizeOf_spec member
  | stepEntry entry => exact sizeOf_lt_of_mem_map_inner stepEntry.sizeOf_spec member
  | jobEntry (.block _) | jobEntry (.template _) | jobEntry (.fragment _)
  | jobEntry (.foreignFragment _ _) =>
    exact sizeOf_lt_of_mem_map_inner jobEntry.sizeOf_spec member
  | stageEntry (.block _) | stageEntry (.template _) | stageEntry (.fragment _)
  | stageEntry (.foreignFragment _ _) =>
    exact sizeOf_lt_of_mem_map_inner stageEntry.sizeOf_spec member

/-! ## Rules of all nodes -/

variable {holds rule : TreeNode → Prop}

/-- What holds of a node exactly if a rule holds of it, and the same of its children, holds exactly
if the rule holds of all nodes that are reached. -/
theorem iff_forall_reaches
    (step : ∀ node : TreeNode, holds node ↔ rule node ∧ ∀ child ∈ node.children, holds child)
    (node : TreeNode) : holds node ↔ ∀ lower, node.Reaches lower → rule lower := by
  constructor
  · intro held lower reaches
    have lowerHeld : holds lower := by
      induction reaches with
      | refl => exact held
      | tail _ below ih => exact ((step _).1 ih).2 _ below
    exact ((step lower).1 lowerHeld).1
  · intro ruled
    refine (step node).2 ⟨ruled node .refl, fun child below => ?_⟩
    exact (iff_forall_reaches step child).2 fun lower reaches => ruled lower (.head below reaches)
termination_by sizeOf node
decreasing_by exact sizeOf_lt_of_mem_children below

end TreeNode

end AzurePipelines
