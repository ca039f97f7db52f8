import AzurePipelines.Proofs.Pipeline.Fields
import AzurePipelines.Proofs.Pipeline.Orders
import AzurePipelines.Proofs.Pipeline.Tree
import AzurePipelines.Proofs.Yaml.Keys
import Mathlib

/-!
# Mappings of documents

Every mapping that is written of a document is written of one node of its tree
(`Document.mem_keyLists_iff`).  What is written of a node are mappings of its own
(`TreeNode.ownKeyLists`), with those of its children inside: one lemma for every kind of node tells
them apart, and `TreeNode.mem_keyLists_iff` is all of them.
-/

namespace AzurePipelines

open Yaml (Node itemKeyLists entryKeyLists)

/-! ## Mappings in fields -/

namespace Fields

variable (key : String)

@[simp] theorem entryKeyLists_node (n : Node) :
    entryKeyLists (Fields.node key n) = n.keyLists := List.append_nil _

@[simp] theorem entryKeyLists_text (value : String) :
    entryKeyLists (Fields.text key value) = [] := rfl

@[simp] theorem entryKeyLists_optionalNode (given : Option Node) :
    entryKeyLists (optionalNode key given) = itemKeyLists given.toList := by
  cases given with
  | none => rfl
  | some n => rfl

@[simp] theorem entryKeyLists_optionalText (value : Option String) :
    entryKeyLists (optionalText key value) = [] := by
  cases value with
  | none => rfl
  | some text => rfl

@[simp] theorem entryKeyLists_optionalBoolean (value : Option Bool) :
    entryKeyLists (optionalBoolean key value) = [] := by
  cases value with
  | none => rfl
  | some b => rfl

@[simp] theorem entryKeyLists_optionalNumber (value : Option Nat) :
    entryKeyLists (optionalNumber key value) = [] := by
  cases value with
  | none => rfl
  | some n => rfl

@[simp] theorem entryKeyLists_flag (value : Bool) : entryKeyLists (flag key value) = [] := by
  cases value with
  | false => rfl
  | true => rfl

@[simp] theorem entryKeyLists_items (nodes : List Node) :
    entryKeyLists (Fields.items key nodes) = itemKeyLists nodes := by
  cases nodes with
  | nil => rfl
  | cons first others => exact List.append_nil _

@[simp] theorem entryKeyLists_map (values : OrderedMap Value) :
    entryKeyLists (Fields.map key values) = itemKeyLists values.filledNode.toList := by
  unfold Fields.map OrderedMap.filledNode
  split
  · rfl
  · rfl

variable {α : Type} [Listed α]

@[simp] theorem entryKeyLists_list (entries : List (ListItem α)) :
    entryKeyLists (Fields.list key entries) = itemKeyLists (listNodes entries) :=
  entryKeyLists_items key _

@[simp] theorem entryKeyLists_ownList (entries : List (ListItem α)) :
    entryKeyLists (Fields.ownList key entries) = itemKeyLists (listNodes entries) :=
  entryKeyLists_node key _

end Fields

@[simp] theorem itemKeyLists_textItems (texts : List String) :
    itemKeyLists (textItems texts) = [] := by
  rw [Yaml.itemKeyLists_eq_flatMap, textItems, List.flatMap_map, List.flatMap_eq_nil_iff]
  exact fun _ _ => rfl

@[simp] theorem itemKeyLists_dependsOn (dependsOn : DependsOn) :
    itemKeyLists dependsOn.node?.toList = [] := by
  cases dependsOn with
  | previous => rfl
  | nothing => rfl
  | single name => rfl
  | multiple names =>
    have texts := itemKeyLists_textItems names
    simp [DependsOn.node?, itemKeyLists, Node.keyLists, texts]

theorem mem_keyLists_mapping {fields : Fields} {keys : List String} :
    keys ∈ (Node.mapping fields).keyLists ↔ keys = fields.keys ∨ keys ∈ entryKeyLists fields :=
  List.mem_cons

/-! ## Mappings of entries -/

/-- The keys of the mappings that are written of an entry itself, and not of the entries inside. -/
def ListItem.ownKeyLists {α : Type} (ofItem : α → List (List String)) :
    ListItem α → List (List String)
  | .item value => ofItem value
  | .template reference => reference.node.keyLists
  | .block ⟨condition, _, elseIfs, elseItems⟩ =>
    [ifKey condition] :: (elseIfs.map fun branch => [elseIfKey branch.condition]) ++
      elseItems.toList.map fun _ => [elseKey]
  | .fragment _ | .foreignFragment _ _ => []

theorem ListItem.mem_ownKeyLists_block {α : Type} {ofItem : α → List (List String)}
    {branches : Conditioned α} {keys : List String} :
    keys ∈ (ListItem.block branches).ownKeyLists ofItem ↔ keys = [ifKey branches.condition] ∨
      (∃ branch ∈ branches.elseIfs, keys = [elseIfKey branch.condition]) ∨
        (branches.elseItems.isSome ∧ keys = [elseKey]) := by
  obtain ⟨condition, items, elseIfs, elseItems⟩ := branches
  cases elseItems with
  | none => simp [ownKeyLists, eq_comm (b := keys)]
  | some others => simp [ownKeyLists, eq_comm (b := keys)]

theorem ListItem.exists_mem_inner_block {α : Type} {holds : ListItem α → Prop}
    {branches : Conditioned α} :
    (∃ lower ∈ (ListItem.block branches).inner, holds lower) ↔
      (∃ lower ∈ branches.items, holds lower) ∨
        (∃ branch ∈ branches.elseIfs, ∃ lower ∈ branch.items, holds lower) ∨
          ∃ lower ∈ branches.elseItems.getD [], holds lower := by
  simp only [inner, List.mem_append, List.mem_flatMap, or_and_right, exists_or]
  apply or_congr_right (or_congr_left _)
  constructor
  · intro ⟨lower, ⟨branch, inBlock, below⟩, held⟩
    exact ⟨branch, inBlock, lower, below, held⟩
  · intro ⟨branch, inBlock, lower, below, held⟩
    exact ⟨lower, ⟨branch, inBlock, below⟩, held⟩

section Entries

variable {α : Type} [Listed α] {keys : List String}

theorem mem_itemKeyLists_listNodes {entries : List (ListItem α)} :
    keys ∈ itemKeyLists (listNodes entries) ↔
      ∃ entry ∈ entries, keys ∈ itemKeyLists entry.nodes := by
  rw [listNodes_eq_flatMap, Yaml.itemKeyLists_flatMap, List.mem_flatMap]

/-- A branch has its key, and the mappings of its entries. -/
theorem mem_keyLists_branch {key : String} {entries : List (ListItem α)} :
    keys ∈ (Node.mapping [(key, .sequence (listNodes entries))]).keyLists ↔
      keys = [key] ∨ ∃ entry ∈ entries, keys ∈ itemKeyLists entry.nodes := by
  rw [← mem_itemKeyLists_listNodes]
  simp [Node.keyLists, entryKeyLists]

theorem mem_itemKeyLists_branchNodes {branches : List (Branch α)} :
    keys ∈ itemKeyLists (branchNodes branches) ↔
      (∃ branch ∈ branches, keys = [elseIfKey branch.condition]) ∨
        ∃ branch ∈ branches, ∃ entry ∈ branch.items, keys ∈ itemKeyLists entry.nodes := by
  rw [branchNodes_eq_map, Yaml.itemKeyLists_eq_flatMap, List.flatMap_map, List.mem_flatMap,
    ← exists_or]
  apply exists_congr
  intro branch
  cases branch
  rw [Branch.node, mem_keyLists_branch]
  exact and_or_left

theorem mem_itemKeyLists_elseNodes {elseItems : Option (List (ListItem α))} :
    keys ∈ itemKeyLists (elseNodes elseItems) ↔
      (elseItems.isSome ∧ keys = [elseKey]) ∨
        ∃ entry ∈ elseItems.getD [], keys ∈ itemKeyLists entry.nodes := by
  cases elseItems with
  | none => simp [elseNodes, itemKeyLists]
  | some items =>
    rw [elseNodes, itemKeyLists, itemKeyLists, List.append_nil, mem_keyLists_branch]
    simp

/-- What is written of an entry that is no item. -/
theorem ListItem.mem_itemKeyLists_nodes_iff (ofItem : α → List (List String)) {entry : ListItem α}
    (noItem : ∀ value, entry ≠ .item value) :
    keys ∈ itemKeyLists entry.nodes ↔
      keys ∈ entry.ownKeyLists ofItem ∨ ∃ lower ∈ entry.inner, keys ∈ itemKeyLists lower.nodes := by
  match entry with
  | .item value => exact absurd rfl (noItem value)
  | .template reference => simp [ListItem.nodes, itemKeyLists, ownKeyLists, inner]
  | .fragment items => simp [ListItem.nodes, ownKeyLists, inner, mem_itemKeyLists_listNodes]
  | .foreignFragment kind size => simp [ListItem.nodes, itemKeyLists, ownKeyLists, inner]
  | .block ⟨condition, items, elseIfs, elseItems⟩ =>
    rw [ListItem.nodes, Conditioned.nodes, itemKeyLists, Yaml.itemKeyLists_append, List.mem_append,
      List.mem_append, mem_keyLists_branch, mem_itemKeyLists_branchNodes,
      mem_itemKeyLists_elseNodes]
    rw [ListItem.mem_ownKeyLists_block, ListItem.exists_mem_inner_block]
    dsimp only
    apply iff_of_eq
    ac_rfl

end Entries

/-! ## Mappings of nodes of the tree -/

/-- The keys of the mappings of the triggers. -/
def Preamble.ownKeyLists (p : Preamble) : List (List String) :=
  itemKeyLists (p.trigger.map Trigger.node).toList ++ itemKeyLists (p.pr.map PrTrigger.node).toList

def Step.ownKeyLists (s : Step) : List (List String) :=
  s.fields.keys ::
    (itemKeyLists s.inputs.filledNode.toList ++ itemKeyLists s.env.filledNode.toList)

def Job.ownKeyLists (j : Job) : List (List String) :=
  j.fields.keys :: (itemKeyLists (j.strategy.map Strategy.node).toList ++
    itemKeyLists (j.workspace.map WorkspaceClean.node).toList)

namespace TreeNode

/-- What is written of a node. -/
def nodes : TreeNode → List Node
  | document d => [.mapping d.sections]
  | schedule s => [s.node]
  | parameter p => [p.node]
  | pool p => [p.node]
  | variableEntry entry => entry.nodes
  | stepEntry entry => entry.nodes
  | jobEntry entry => entry.nodes
  | stageEntry entry => entry.nodes

/-- The keys of every mapping that is written of a node. -/
def keyLists (node : TreeNode) : List (List String) := itemKeyLists node.nodes

/-- The keys of the mappings that are written of a node itself, and not of its children. -/
def ownKeyLists : TreeNode → List (List String)
  | document (.singleStage preamble jobs) =>
    (Document.singleStage preamble jobs).sections.keys :: preamble.ownKeyLists
  | document (.multiStage preamble stages) =>
    (Document.multiStage preamble stages).sections.keys :: preamble.ownKeyLists
  | document (.template parameters body) => [(Document.template parameters body).sections.keys]
  | schedule s => s.node.keyLists
  | parameter p => p.node.keyLists
  | pool p => p.node.keyLists
  | variableEntry entry => entry.ownKeyLists fun v => [v.fields.keys]
  | stepEntry entry => entry.ownKeyLists Step.ownKeyLists
  | jobEntry entry => entry.ownKeyLists Job.ownKeyLists
  | stageEntry entry => entry.ownKeyLists fun s => [s.fields.keys]

/-! ### What is written of children -/

variable {keys : List String}

theorem flatMap_nodes_ofPreamble (preamble : Preamble) :
    (ofPreamble preamble).flatMap nodes =
      preamble.schedules.map Schedule.node ++ preamble.parameters.map DeclaredParameter.node ++
        listNodes preamble.variableItems ++ (preamble.pool.map Pool.node).toList := by
  simp only [ofPreamble, List.flatMap_append, List.flatMap_map, nodes, listNodes_eq_flatMap,
    Option.toList_map, ← List.map_eq_flatMap]

theorem flatMap_nodes_ofJob (job : Job) :
    (ofJob job).flatMap nodes = (job.pool.map Pool.node).toList ++ listNodes job.variableItems ++
      listNodes job.steps := by
  simp only [ofJob, List.flatMap_append, List.flatMap_map, nodes, listNodes_eq_flatMap,
    Option.toList_map, ← List.map_eq_flatMap]

theorem flatMap_nodes_ofStage (stage : Stage) :
    (ofStage stage).flatMap nodes = (stage.pool.map Pool.node).toList ++
      listNodes stage.variableItems ++ listNodes stage.jobs := by
  simp only [ofStage, List.flatMap_append, List.flatMap_map, nodes, listNodes_eq_flatMap,
    Option.toList_map, ← List.map_eq_flatMap]

/-! ### Mappings of nodes and of their children -/

theorem entryKeyLists_preamble (preamble : Preamble) :
    entryKeyLists preamble.fields =
      preamble.ownKeyLists ++ itemKeyLists ((ofPreamble preamble).flatMap nodes) := by
  simp [Preamble.fields, Preamble.ownKeyLists, flatMap_nodes_ofPreamble, List.append_assoc]

theorem keyLists_stage (stage : Stage) :
    (Node.mapping stage.fields).keyLists =
      stage.fields.keys :: itemKeyLists ((ofStage stage).flatMap nodes) := by
  simp [Node.keyLists, Fields.keys, Stage.fields, flatMap_nodes_ofStage]

/-- No setting of an action has a mapping. -/
@[simp] theorem entryKeyLists_action (action : StepAction) : entryKeyLists action.fields = [] := by
  cases action with
  | task _ => rfl
  | script s | bash s => simp [StepAction.fields, ScriptStep.fields]
  | pwsh s | powershell s => simp [StepAction.fields, PowershellStep.fields, ScriptStep.fields]
  | checkout c =>
    have submodules : itemKeyLists (c.submodules.map Submodules.node).toList = [] := by
      match c.submodules with
      | none => rfl
      | some .direct => rfl
      | some .recursive => rfl
    simp [StepAction.fields, CheckoutStep.fields, submodules]
  | download d => simp [StepAction.fields, DownloadStep.fields]
  | publish p => simp [StepAction.fields]

theorem keyLists_step (step : Step) :
    (Node.mapping step.fields).keyLists = step.ownKeyLists := by
  simp [Node.keyLists, Fields.keys, Step.fields, Step.ownKeyLists]

theorem keyLists_variable (v : Variable) : (Node.mapping v.fields).keyLists = [v.fields.keys] := by
  cases v with
  | value name content readonly => simp [Node.keyLists, Fields.keys, Variable.fields]
  | group name => rfl

theorem mem_keyLists_job {job : Job} :
    keys ∈ (Node.mapping job.fields).keyLists ↔
      keys ∈ job.ownKeyLists ∨ keys ∈ itemKeyLists ((ofJob job).flatMap nodes) := by
  -- The pool, a child, is written between the strategy and the workspace, which are not, so that
  -- the mappings are the same, but not in one order.
  have inside : keys ∈ entryKeyLists job.fields ↔
      keys ∈ itemKeyLists (job.strategy.map Strategy.node).toList ∨
        keys ∈ itemKeyLists (job.workspace.map WorkspaceClean.node).toList ∨
          keys ∈ itemKeyLists ((ofJob job).flatMap nodes) := by
    simp only [Job.fields, flatMap_nodes_ofJob, Yaml.entryKeyLists_append, Yaml.itemKeyLists_append,
      Fields.entryKeyLists_text, Fields.entryKeyLists_optionalText,
      Fields.entryKeyLists_optionalNode, Fields.entryKeyLists_optionalNumber,
      Fields.entryKeyLists_flag, Fields.entryKeyLists_list, Fields.entryKeyLists_ownList,
      itemKeyLists_dependsOn, List.mem_append, List.nil_append, List.append_nil]
    apply iff_of_eq
    ac_rfl
  rw [mem_keyLists_mapping, inside, Job.ownKeyLists, List.mem_cons, List.mem_append]
  apply iff_of_eq
  ac_rfl

theorem exists_mem_keyLists_iff {children : List TreeNode} :
    (∃ child ∈ children, keys ∈ child.keyLists) ↔ keys ∈ itemKeyLists (children.flatMap nodes) := by
  rw [Yaml.itemKeyLists_flatMap, List.mem_flatMap]
  rfl

theorem flatMap_nodes_entries {α : Type} [Listed α] {wrap : ListItem α → TreeNode}
    (writes : ∀ entry, (wrap entry).nodes = entry.nodes) (entries : List (ListItem α)) :
    (entries.map wrap).flatMap nodes = listNodes entries := by
  rw [List.flatMap_map, listNodes_eq_flatMap]
  exact List.flatMap_congr fun entry _ => writes entry

/-- An entry that is no item has the entries inside as its children. -/
theorem mem_keyLists_entry {α : Type} [Listed α] (wrap : ListItem α → TreeNode)
    (ofItem : α → List (List String)) (writes : ∀ entry, (wrap entry).nodes = entry.nodes)
    {entry : ListItem α} (noItem : ∀ value, entry ≠ .item value) :
    keys ∈ itemKeyLists entry.nodes ↔ keys ∈ entry.ownKeyLists ofItem ∨
      ∃ child ∈ entry.inner.map wrap, keys ∈ child.keyLists := by
  rw [exists_mem_keyLists_iff, flatMap_nodes_entries writes, mem_itemKeyLists_listNodes]
  exact ListItem.mem_itemKeyLists_nodes_iff ofItem noItem

theorem keyLists_item {α : Type} [Listed α] (value : α) :
    itemKeyLists (ListItem.item value).nodes = (Node.mapping (Listed.fields value)).keyLists :=
  List.append_nil _

/-- The list of a template is all that is written of its children besides the parameters. -/
theorem flatMap_nodes_ofTemplateBody (body : TemplateBody) :
    entryKeyLists body.fields = itemKeyLists ((ofTemplateBody body).flatMap nodes) := by
  cases body with
  | steps items | jobs items | stages items | variableItems items =>
    rw [TemplateBody.fields, Fields.entryKeyLists_ownList, ofTemplateBody,
      flatMap_nodes_entries fun _ => rfl]

theorem keyLists_document (d : Document) :
    (document d).keyLists =
      (document d).ownKeyLists ++ itemKeyLists ((document d).children.flatMap nodes) := by
  have top : (document d).keyLists = d.sections.keys :: entryKeyLists d.sections :=
    List.append_nil _
  rw [top]
  match d with
  | .singleStage preamble jobs =>
    rw [ownKeyLists, children, List.flatMap_append, flatMap_nodes_entries fun _ => rfl,
      Yaml.itemKeyLists_append, List.cons_append, ← List.append_assoc, ← entryKeyLists_preamble,
      Document.sections, Yaml.entryKeyLists_append, Fields.entryKeyLists_ownList]
  | .multiStage preamble stages =>
    rw [ownKeyLists, children, List.flatMap_append, flatMap_nodes_entries fun _ => rfl,
      Yaml.itemKeyLists_append, List.cons_append, ← List.append_assoc, ← entryKeyLists_preamble,
      Document.sections, Yaml.entryKeyLists_append, Fields.entryKeyLists_ownList]
  | .template parameters body =>
    have declared : (parameters.map parameter).flatMap nodes =
        parameters.map DeclaredParameter.node := by
      rw [List.flatMap_map, List.map_eq_flatMap]
      rfl
    rw [ownKeyLists, children, List.flatMap_append, declared, Yaml.itemKeyLists_append,
      ← flatMap_nodes_ofTemplateBody, Document.sections, Yaml.entryKeyLists_append,
      Fields.entryKeyLists_items, List.singleton_append]

/-- The mappings of a node are its own, and those of its children. -/
theorem mem_keyLists_iff (node : TreeNode) :
    keys ∈ node.keyLists ↔
      keys ∈ node.ownKeyLists ∨ ∃ child ∈ node.children, keys ∈ child.keyLists := by
  match node with
  | document d => rw [keyLists_document, List.mem_append, exists_mem_keyLists_iff]
  | schedule _ | parameter _ | pool _ =>
    simp [keyLists, nodes, ownKeyLists, children, itemKeyLists]
  | variableEntry (.item v) =>
    rw [keyLists, nodes, keyLists_item]
    simp [Listed.fields, keyLists_variable, ownKeyLists, ListItem.ownKeyLists, children,
      ListItem.inner]
  | stepEntry (.item step) =>
    rw [keyLists, nodes, keyLists_item]
    simp [Listed.fields, keyLists_step, ownKeyLists, ListItem.ownKeyLists, children,
      ListItem.inner]
  | jobEntry (.item job) =>
    rw [children, exists_mem_keyLists_iff, keyLists, nodes, keyLists_item]
    exact mem_keyLists_job
  | stageEntry (.item stage) =>
    rw [children, exists_mem_keyLists_iff, keyLists, nodes, keyLists_item, ownKeyLists,
      ListItem.ownKeyLists, List.mem_singleton, ← List.mem_cons, ← keyLists_stage]
    rfl
  | variableEntry (.block _) | variableEntry (.template _) | variableEntry (.fragment _)
  | variableEntry (.foreignFragment _ _) =>
    exact mem_keyLists_entry variableEntry (fun v => [v.fields.keys]) (fun _ => rfl) (by simp)
  | stepEntry (.block _) | stepEntry (.template _) | stepEntry (.fragment _)
  | stepEntry (.foreignFragment _ _) =>
    exact mem_keyLists_entry stepEntry Step.ownKeyLists (fun _ => rfl) (by simp)
  | jobEntry (.block _) | jobEntry (.template _) | jobEntry (.fragment _)
  | jobEntry (.foreignFragment _ _) =>
    exact mem_keyLists_entry jobEntry Job.ownKeyLists (fun _ => rfl) (by simp)
  | stageEntry (.block _) | stageEntry (.template _) | stageEntry (.fragment _)
  | stageEntry (.foreignFragment _ _) =>
    exact mem_keyLists_entry stageEntry (fun s => [s.fields.keys]) (fun _ => rfl) (by simp)

end TreeNode

/-! ## Mappings of a document -/

/-- The mappings of a document are those of the nodes of its tree. -/
theorem Document.mem_keyLists_iff {document : Document} {keys : List String} :
    keys ∈ (Node.mapping document.sections).keyLists ↔
      ∃ node, (TreeNode.document document).Reaches node ∧ keys ∈ node.ownKeyLists := by
  have unwritten (node : TreeNode) : keys ∉ node.keyLists ↔
      keys ∉ node.ownKeyLists ∧ ∀ child ∈ node.children, keys ∉ child.keyLists := by
    rw [TreeNode.mem_keyLists_iff]
    simp only [not_or, not_exists, not_and]
  have nowhere := TreeNode.iff_forall_reaches unwritten (.document document)
  have top : (TreeNode.document document).keyLists = (Node.mapping document.sections).keyLists :=
    List.append_nil _
  rw [top] at nowhere
  rw [← not_iff_not, nowhere]
  simp only [not_exists, not_and]

end AzurePipelines
