import AzurePipelines.Proofs.Pipeline.Mappings
import Mathlib

/-!
# Distinct keys

A mapping of a document has the keys of a record (`KnownKeys`), or given ones: the key of a branch,
or those of the maps that tasks, templates, matrices and declared parameters are given
(`TreeNode.givenKeyLists`, `TreeNode.addsKnown`).  No key of a record stands twice, and given maps
have distinct keys, so that no mapping of a document repeats a key (`Document.nodup_keys`).
-/

namespace AzurePipelines

open Yaml (Node itemKeyLists entryKeyLists)

/-! ## Known keys -/

/-- The keys of a record: none stands twice, and all of them are short. -/
def KnownKeys (keys : List String) : Prop := keys.Nodup ∧ ∀ key ∈ keys, key.length ≤ 64

instance (keys : List String) : Decidable (KnownKeys keys) := inferInstanceAs (Decidable (_ ∧ _))

theorem Fields.Follow.knownKeys {fields : Fields} {order : List String} (h : fields.Follow order)
    (known : KnownKeys order) : KnownKeys fields.keys :=
  ⟨h.nodup known.1, fun key member => known.2 key (List.Sublist.subset h member)⟩

theorem knownKeys_item (kind : ItemKind) : KnownKeys (KeyOrder.item kind) := by
  cases kind <;> decide

theorem Step.knownKeys (s : Step) : KnownKeys s.fields.keys := by
  apply (s.follow_fields s.action.follow_fields).knownKeys
  cases s.action <;> rw [StepAction.key, StepAction.settingOrder] <;> decide

theorem Document.knownKeys (d : Document) : KnownKeys d.sections.keys := by
  match d with
  | .singleStage preamble jobs =>
    exact (preamble.follow_fields.append (Fields.follow_ownList "jobs" jobs)).knownKeys (by decide)
  | .multiStage preamble stages =>
    exact (preamble.follow_fields.append (Fields.follow_ownList "stages" stages)).knownKeys
      (by decide)
  | .template parameters (.steps items) =>
    exact ((Fields.follow_items "parameters" _).append
      (Fields.follow_ownList "steps" items)).knownKeys (by decide)
  | .template parameters (.jobs items) =>
    exact ((Fields.follow_items "parameters" _).append
      (Fields.follow_ownList "jobs" items)).knownKeys (by decide)
  | .template parameters (.stages items) =>
    exact ((Fields.follow_items "parameters" _).append
      (Fields.follow_ownList "stages" items)).knownKeys (by decide)
  | .template parameters (.variableItems items) =>
    exact ((Fields.follow_items "parameters" _).append
      (Fields.follow_ownList "variables" items)).knownKeys (by decide)

theorem forall_mem_keyLists_toList {α : Type} {write : α → Node} {holds : List String → Prop}
    (all : ∀ value, ∀ keys ∈ (write value).keyLists, holds keys) (given : Option α) :
    ∀ keys ∈ itemKeyLists (given.map write).toList, holds keys := by
  cases given with
  | none => exact List.forall_mem_nil _
  | some value =>
    rw [Option.map_some, Option.toList_some, itemKeyLists, itemKeyLists, List.append_nil]
    exact all value

theorem Filter.knownKeys (f : Filter) : ∀ keys ∈ f.node.keyLists, KnownKeys keys := by
  refine List.forall_mem_cons.2 ⟨f.follow_fields.knownKeys (by decide), ?_⟩
  simp

theorem Trigger.knownKeys (t : Trigger) : ∀ keys ∈ t.node.keyLists, KnownKeys keys := by
  cases t with
  | never => exact List.forall_mem_nil _
  | pushes batch branches paths tags =>
    have own := (Trigger.follow_fields batch branches paths tags).knownKeys (by decide)
    refine List.forall_mem_cons.2 ⟨own, ?_⟩
    have filters := forall_mem_keyLists_toList Filter.knownKeys
    simp only [Yaml.entryKeyLists_append, Fields.entryKeyLists_optionalBoolean,
      Fields.entryKeyLists_optionalNode, List.nil_append, List.forall_mem_append]
    exact ⟨⟨filters branches, filters paths⟩, filters tags⟩

theorem PrTrigger.knownKeys (t : PrTrigger) : ∀ keys ∈ t.node.keyLists, KnownKeys keys := by
  cases t with
  | never => exact List.forall_mem_nil _
  | pullRequests autoCancel branches paths drafts =>
    have own := (PrTrigger.follow_fields autoCancel branches paths drafts).knownKeys (by decide)
    refine List.forall_mem_cons.2 ⟨own, ?_⟩
    have filters := forall_mem_keyLists_toList Filter.knownKeys
    simp only [Yaml.entryKeyLists_append, Fields.entryKeyLists_optionalBoolean,
      Fields.entryKeyLists_optionalNode, List.nil_append, List.append_nil, List.forall_mem_append]
    exact ⟨filters branches, filters paths⟩

theorem Preamble.knownKeys (p : Preamble) : ∀ keys ∈ p.ownKeyLists, KnownKeys keys :=
  List.forall_mem_append.2 ⟨forall_mem_keyLists_toList Trigger.knownKeys p.trigger,
    forall_mem_keyLists_toList PrTrigger.knownKeys p.pr⟩

theorem Schedule.knownKeys (s : Schedule) : ∀ keys ∈ s.node.keyLists, KnownKeys keys := by
  refine List.forall_mem_cons.2 ⟨s.follow_fields.knownKeys (by decide), ?_⟩
  simpa using s.branches.knownKeys

theorem Pool.knownKeys (p : Pool) : ∀ keys ∈ p.node.keyLists, KnownKeys keys := by
  cases p with
  | named name => exact List.forall_mem_nil _
  | hosted name vmImage demands =>
    have own := (Pool.follow_fields name vmImage demands).knownKeys (by decide)
    refine List.forall_mem_cons.2 ⟨own, ?_⟩
    simp

theorem WorkspaceClean.knownKeys (w : WorkspaceClean) :
    ∀ keys ∈ w.node.keyLists, KnownKeys keys := by
  cases w <;> decide

/-! ## Given keys -/

/-- The keys of the branches of a block, and of the maps that a template or an item is given. -/
def ListItem.givenKeyLists {α : Type} (ofItem : α → List (List String)) :
    ListItem α → List (List String)
  | .item value => ofItem value
  | .template reference => itemKeyLists reference.parameters.filledNode.toList
  | .block branches => (ListItem.block branches).ownKeyLists ofItem
  | .fragment _ | .foreignFragment _ _ => []

def Step.givenKeyLists (s : Step) : List (List String) :=
  itemKeyLists s.inputs.filledNode.toList ++ itemKeyLists s.env.filledNode.toList

def Job.givenKeyLists (j : Job) : List (List String) :=
  j.strategy.toList.flatMap fun strategy => itemKeyLists strategy.matrix.filledNode.toList

namespace TreeNode

/-- The keys of a node that are no keys of a record: those of the branches of a block, and of all
mappings in the values that the node is given. -/
def givenKeyLists : TreeNode → List (List String)
  | parameter p =>
    itemKeyLists (p.default.map Value.node).toList ++ itemKeyLists (p.values.map Value.node)
  | variableEntry entry => entry.givenKeyLists fun _ => []
  | stepEntry entry => entry.givenKeyLists Step.givenKeyLists
  | jobEntry entry => entry.givenKeyLists Job.givenKeyLists
  | stageEntry entry => entry.givenKeyLists fun _ => []
  | document _ | schedule _ | pool _ => []

end TreeNode

/-- What is written has the given keys, and known keys besides. -/
structure AddsKnown (given written : List (List String)) : Prop where
  subset : given ⊆ written
  known : ∀ keys ∈ written, keys ∈ given ∨ KnownKeys keys

namespace AddsKnown

variable {given written others : List (List String)}

theorem refl (given : List (List String)) : AddsKnown given given :=
  ⟨List.Subset.refl given, fun _ member => .inl member⟩

theorem nil (known : ∀ keys ∈ written, KnownKeys keys) : AddsKnown [] written :=
  ⟨List.nil_subset _, fun keys member => .inr (known keys member)⟩

theorem cons (h : AddsKnown given written) {keys : List String} (known : KnownKeys keys) :
    AddsKnown given (keys :: written) := by
  refine ⟨List.subset_cons_of_subset _ h.subset, List.forall_mem_cons.2 ⟨.inr known, h.known⟩⟩

theorem append_known (h : AddsKnown given written) (known : ∀ keys ∈ others, KnownKeys keys) :
    AddsKnown given (written ++ others) := by
  refine ⟨List.subset_append_of_subset_left _ h.subset, ?_⟩
  exact List.forall_mem_append.2 ⟨h.known, fun keys member => .inr (known keys member)⟩

end AddsKnown

theorem TemplateReference.addsKnown (t : TemplateReference) :
    AddsKnown (itemKeyLists t.parameters.filledNode.toList) t.node.keyLists := by
  have own := t.follow_fields.knownKeys (by decide)
  rw [TemplateReference.node, Node.keyLists, Yaml.entryKeyLists_append,
    Fields.entryKeyLists_text, Fields.entryKeyLists_map, List.nil_append]
  exact (AddsKnown.refl _).cons own

theorem DeclaredParameter.addsKnown (p : DeclaredParameter) :
    AddsKnown (TreeNode.parameter p).givenKeyLists p.node.keyLists := by
  have own := p.follow_fields.knownKeys (by decide)
  rw [DeclaredParameter.node, Node.keyLists]
  simp only [Yaml.entryKeyLists_append, Fields.entryKeyLists_text,
    Fields.entryKeyLists_optionalText, Fields.entryKeyLists_optionalNode,
    Fields.entryKeyLists_items, List.nil_append, List.append_nil]
  exact (AddsKnown.refl _).cons own

theorem Strategy.addsKnown (s : Strategy) :
    AddsKnown (itemKeyLists s.matrix.filledNode.toList) s.node.keyLists := by
  have own := s.follow_fields.knownKeys (by decide)
  rw [Strategy.node, Node.keyLists]
  simp only [Yaml.entryKeyLists_append, Fields.entryKeyLists_map,
    Fields.entryKeyLists_optionalNumber, List.append_nil]
  exact (AddsKnown.refl _).cons own

theorem Job.addsKnown (j : Job) : AddsKnown j.givenKeyLists j.ownKeyLists := by
  have own := j.follow_fields.knownKeys (knownKeys_item .job)
  have workspace := forall_mem_keyLists_toList WorkspaceClean.knownKeys j.workspace
  rw [Job.givenKeyLists, Job.ownKeyLists]
  apply AddsKnown.cons _ own
  apply AddsKnown.append_known _ workspace
  cases j.strategy with
  | none => exact AddsKnown.refl []
  | some s =>
    simp only [Option.toList_some, Option.map_some, List.flatMap_singleton, itemKeyLists,
      List.append_nil]
    exact s.addsKnown

theorem ListItem.addsKnown {α : Type} {givenOf writtenOf : α → List (List String)}
    (items : ∀ value, AddsKnown (givenOf value) (writtenOf value)) (entry : ListItem α) :
    AddsKnown (entry.givenKeyLists givenOf) (entry.ownKeyLists writtenOf) := by
  cases entry with
  | item value => exact items value
  | template reference => exact reference.addsKnown
  | block branches =>
    cases branches
    exact AddsKnown.refl _
  | fragment items => exact AddsKnown.refl []
  | foreignFragment kind size => exact AddsKnown.refl []

/-- **What is written of a node has its given keys, and known keys besides.** -/
theorem TreeNode.addsKnown (node : TreeNode) : AddsKnown node.givenKeyLists node.ownKeyLists := by
  match node with
  | document d =>
    match d with
    | .singleStage preamble jobs | .multiStage preamble stages =>
      exact .nil (List.forall_mem_cons.2 ⟨Document.knownKeys _, preamble.knownKeys⟩)
    | .template parameters body => exact .nil (List.forall_mem_singleton.2 (Document.knownKeys _))
  | schedule s => exact .nil s.knownKeys
  | parameter p => exact p.addsKnown
  | pool p => exact .nil p.knownKeys
  | variableEntry entry =>
    refine entry.addsKnown fun v => .nil (List.forall_mem_singleton.2 ?_)
    exact v.follow_fields.knownKeys (knownKeys_item .variable)
  | stepEntry entry => exact entry.addsKnown fun s => (AddsKnown.refl _).cons s.knownKeys
  | jobEntry entry => exact entry.addsKnown Job.addsKnown
  | stageEntry entry =>
    refine entry.addsKnown fun s => .nil (List.forall_mem_singleton.2 ?_)
    exact s.follow_fields.knownKeys (knownKeys_item .stage)

/-! ### Distinct keys -/

theorem OrderedMap.nodup_of_mem_filledNode (values : OrderedMap Value) :
    ∀ keys ∈ itemKeyLists values.filledNode.toList, keys.Nodup := by
  unfold OrderedMap.filledNode
  split
  · exact List.forall_mem_nil _
  · rw [Option.toList_some, itemKeyLists, itemKeyLists, List.append_nil]
    exact values.keysDistinct_node.nodup

theorem ListItem.nodup_givenKeyLists {α : Type} {givenOf : α → List (List String)}
    (items : ∀ value, ∀ keys ∈ givenOf value, keys.Nodup) (entry : ListItem α) :
    ∀ keys ∈ entry.givenKeyLists givenOf, keys.Nodup := by
  cases entry with
  | item value => exact items value
  | template reference => exact reference.parameters.nodup_of_mem_filledNode
  | block branches =>
    intro keys member
    rcases ListItem.mem_ownKeyLists_block.1 member with rfl | ⟨_, _, rfl⟩ | ⟨_, rfl⟩
    · exact List.nodup_singleton _
    · exact List.nodup_singleton _
    · exact List.nodup_singleton _
  | fragment items => exact List.forall_mem_nil _
  | foreignFragment kind size => exact List.forall_mem_nil _

theorem TreeNode.nodup_givenKeyLists (node : TreeNode) :
    ∀ keys ∈ node.givenKeyLists, keys.Nodup := by
  match node with
  | document _ | schedule _ | pool _ => exact List.forall_mem_nil _
  | parameter p =>
    have values (value : Value) := value.distinct.nodup
    refine List.forall_mem_append.2 ⟨forall_mem_keyLists_toList values p.default, ?_⟩
    rw [Yaml.itemKeyLists_eq_flatMap, List.flatMap_map]
    exact List.forall_mem_flatMap.2 fun value _ => values value
  | variableEntry entry | stageEntry entry =>
    exact entry.nodup_givenKeyLists fun _ => List.forall_mem_nil _
  | stepEntry entry =>
    exact entry.nodup_givenKeyLists fun s => List.forall_mem_append.2
      ⟨s.inputs.nodup_of_mem_filledNode, s.env.nodup_of_mem_filledNode⟩
  | jobEntry entry =>
    exact entry.nodup_givenKeyLists fun j => List.forall_mem_flatMap.2
      fun strategy _ => strategy.matrix.nodup_of_mem_filledNode

/-- No mapping of a node repeats a key. -/
theorem TreeNode.nodup_ownKeyLists (node : TreeNode) : ∀ keys ∈ node.ownKeyLists, keys.Nodup := by
  intro keys member
  rcases node.addsKnown.known keys member with given | known
  · exact node.nodup_givenKeyLists keys given
  · exact known.1

namespace Document

/-- **No mapping of a document repeats a key**, nor are two of its keys written alike. -/
theorem nodup_keys (document : Document) :
    ∀ keys ∈ (Node.mapping document.sections).keyLists,
      keys.Nodup ∧ (keys.map fun key => Yaml.inline key.toList).Nodup := by
  intro keys member
  obtain ⟨node, _, own⟩ := mem_keyLists_iff.1 member
  have distinct := node.nodup_ownKeyLists keys own
  exact ⟨distinct, distinct.map fun _ _ same => Yaml.inline_injective same⟩

/-- A template with one task, which takes an input. -/
def taskTemplate : Document :=
  .template [] (.steps [.item ((Step.task "Go@0").withInput "version" (.text "1.22"))])

/-- The step and its inputs have keys that are told apart. -/
theorem nodup_keys_taskTemplate :
    (["task", "inputs"] ∈ (Node.mapping taskTemplate.sections).keyLists ∧
      (["task", "inputs"].map fun key => Yaml.inline key.toList).Nodup) ∧
        ["version"] ∈ (Node.mapping taskTemplate.sections).keyLists ∧
          (["version"].map fun key => Yaml.inline key.toList).Nodup := by
  have step : ["task", "inputs"] ∈ (Node.mapping taskTemplate.sections).keyLists := by decide
  have inputs : ["version"] ∈ (Node.mapping taskTemplate.sections).keyLists := by decide
  exact ⟨⟨step, (nodup_keys taskTemplate _ step).2⟩, inputs, (nodup_keys taskTemplate _ inputs).2⟩

end Document

end AzurePipelines
