import AzurePipelines.Proofs.Pipeline.Completeness
import AzurePipelines.Proofs.Pipeline.Orders
import Mathlib

/-!
# Sections in order

The sections of a document are in order (`SectionsInOrder`) if every mapping for which there is an
order keeps to it: the sections themselves, triggers and their filters, pools, and the entries of
lists at any depth.  They are exactly if the document holds no step with a late path
(`Document.sectionsInOrder_iff`), and there are documents that do
(`Document.artifactDownload_disordered`).
-/

namespace AzurePipelines

open Fields
open Yaml (Node)

/-! ## What is in order -/

/-- A node that has keys has them in an order. -/
def FollowsIfMapping (order : List String) : Node → Prop
  | .mapping fields => Fields.Follow fields order
  | .scalar _ | .sequence _ => True

/-- What has filters of branches, paths or tags: the keys of all of them are in order. -/
def FiltersInOrder (fields : Fields) : Prop :=
  ∀ key ∈ ["branches", "paths", "tags"], ∀ filter, (key, filter) ∈ fields →
    FollowsIfMapping KeyOrder.filter filter

/-- A trigger of either kind: its keys are in an order, and so are those of its filters. -/
def TriggerInOrder (order : List String) : Node → Prop
  | .mapping fields => Fields.Follow fields order ∧ FiltersInOrder fields
  | .scalar _ | .sequence _ => True

def ScheduleInOrder : Node → Prop
  | .mapping fields => FiltersInOrder fields
  | .scalar _ | .sequence _ => True

/-- An entry of a list: a branch with such entries, a template, or an item, whose keys are in the
order of its kind, and in which the pool and all entries of lists are in order. -/
inductive EntryInOrder : ItemKind → Node → Prop
  | branch {kind : ItemKind} {key : String} {items : List Node} :
    IsBranchKey key → (∀ item ∈ items, EntryInOrder kind item) →
    EntryInOrder kind (.mapping [(key, .sequence items)])
  | template {kind : ItemKind} {path : Node} {fields : Fields} :
    ("template", path) ∈ fields → fields.Follow KeyOrder.templateReference →
    EntryInOrder kind (.mapping fields)
  | item {kind : ItemKind} {fields : Fields} : fields.Follow (KeyOrder.item kind) →
    (∀ pool, ("pool", pool) ∈ fields → FollowsIfMapping KeyOrder.pool pool) →
    (∀ inner items, (ItemKind.listKey inner, .sequence items) ∈ fields →
      ∀ item ∈ items, EntryInOrder inner item) → EntryInOrder kind (.mapping fields)

/-- The sections of a pipeline or template: every mapping for which there is an order keeps to it,
at any depth. -/
structure SectionsInOrder (isPipeline : Bool) (sections : Fields) : Prop where
  top : sections.Follow (if isPipeline then KeyOrder.pipeline else KeyOrder.template)
  trigger : ∀ n, ("trigger", n) ∈ sections → TriggerInOrder KeyOrder.trigger n
  pr : ∀ n, ("pr", n) ∈ sections → TriggerInOrder KeyOrder.pr n
  schedules : ∀ items, ("schedules", .sequence items) ∈ sections →
    ∀ item ∈ items, ScheduleInOrder item
  pool : ∀ n, ("pool", n) ∈ sections → FollowsIfMapping KeyOrder.pool n
  lists : ∀ kind items, (ItemKind.listKey kind, .sequence items) ∈ sections →
    ∀ item ∈ items, EntryInOrder kind item

/-! ## Parts that are always in order -/

theorem Filter.followsIfMapping_node (f : Filter) : FollowsIfMapping KeyOrder.filter f.node :=
  f.follow_fields

theorem Pool.followsIfMapping_node (p : Pool) : FollowsIfMapping KeyOrder.pool p.node := by
  cases p with
  | named name => exact True.intro
  | hosted name vmImage demands => exact Pool.follow_fields name vmImage demands

/-- A filter stands at its key, or nothing does. -/
theorem followsIfMapping_of_mem_optionalNode {key other : String} {given : Option Filter}
    {n : Node} (member : (other, n) ∈ optionalNode key (given.map Filter.node)) :
    FollowsIfMapping KeyOrder.filter n := by
  rw [mem_optionalNode, Option.map_eq_some_iff] at member
  obtain ⟨_, f, _, rfl⟩ := member
  exact f.followsIfMapping_node

theorem filtersInOrder_append {upper lower : Fields} (first : FiltersInOrder upper)
    (second : FiltersInOrder lower) : FiltersInOrder (upper ++ lower) := by
  intro key isFilter filter member
  rcases List.mem_append.1 member with member | member
  · exact first key isFilter filter member
  · exact second key isFilter filter member

theorem filtersInOrder_optionalNode (key : String) (given : Option Filter) :
    FiltersInOrder (optionalNode key (given.map Filter.node)) :=
  fun _ _ _ member => followsIfMapping_of_mem_optionalNode member

/-- What does not stand at the key of a filter. -/
theorem filtersInOrder_optionalBoolean (key : String) (given : Option Bool)
    (noFilter : key ∉ ["branches", "paths", "tags"]) :
    FiltersInOrder (optionalBoolean key given) := by
  intro other isFilter filter member
  rw [mem_optionalBoolean] at member
  rw [member.1] at isFilter
  exact absurd isFilter noFilter

theorem Trigger.inOrder_node (t : Trigger) : TriggerInOrder KeyOrder.trigger t.node := by
  cases t with
  | never => exact True.intro
  | pushes batch branches paths tags =>
    refine ⟨Trigger.follow_fields batch branches paths tags, ?_⟩
    have batched := filtersInOrder_optionalBoolean "batch" batch (by decide)
    have narrowed := filtersInOrder_append (filtersInOrder_append batched
      (filtersInOrder_optionalNode "branches" branches)) (filtersInOrder_optionalNode "paths" paths)
    exact filtersInOrder_append narrowed (filtersInOrder_optionalNode "tags" tags)

theorem PrTrigger.inOrder_node (t : PrTrigger) : TriggerInOrder KeyOrder.pr t.node := by
  cases t with
  | never => exact True.intro
  | pullRequests autoCancel branches paths drafts =>
    refine ⟨PrTrigger.follow_fields autoCancel branches paths drafts, ?_⟩
    have cancelled := filtersInOrder_optionalBoolean "autoCancel" autoCancel (by decide)
    have narrowed := filtersInOrder_append (filtersInOrder_append cancelled
      (filtersInOrder_optionalNode "branches" branches)) (filtersInOrder_optionalNode "paths" paths)
    exact filtersInOrder_append narrowed
      (filtersInOrder_optionalBoolean "drafts" drafts (by decide))

theorem Schedule.inOrder_node (s : Schedule) : ScheduleInOrder s.node := by
  intro key isFilter filter member
  simp only [List.mem_append, mem_text, mem_optionalText, mem_node, mem_flag] at member
  rcases member with (((⟨rfl, _⟩ | ⟨rfl, _⟩) | ⟨_, rfl⟩) | ⟨rfl, _⟩) | ⟨rfl, _⟩
  · exact absurd isFilter (by decide)
  · exact absurd isFilter (by decide)
  · exact s.branches.followsIfMapping_node
  · exact absurd isFilter (by decide)
  · exact absurd isFilter (by decide)

/-- The pool of a record is all that stands at its key. -/
theorem followsIfMapping_of_poolAt {fields : Fields} (pool : Option Pool)
    (poolAt : ∀ n, ("pool", n) ∈ fields ↔ pool.map Pool.node = some n) :
    ∀ n, ("pool", n) ∈ fields → FollowsIfMapping KeyOrder.pool n := by
  intro n member
  obtain ⟨p, _, rfl⟩ := Option.map_eq_some_iff.1 ((poolAt n).1 member)
  exact p.followsIfMapping_node

/-! ## Entries of lists -/

theorem entryInOrder_branch_iff {kind : ItemKind} (key : String) (items : List Node)
    (isBranch : IsBranchKey key) :
    EntryInOrder kind (.mapping [(key, .sequence items)]) ↔
      ∀ item ∈ items, EntryInOrder kind item := by
  constructor
  · intro ordered
    cases ordered with
    | branch _ ordered => exact ordered
    | template member _ => exact absurd isBranch (not_isBranchKey_of_mem member (by decide))
    | item follows _ _ =>
      exact absurd isBranch (KeyOrder.not_isBranchKey (follows.mem List.mem_cons_self))
  · exact .branch isBranch

theorem entryInOrder_template (kind : ItemKind) (reference : TemplateReference) :
    EntryInOrder kind reference.node :=
  .template (List.mem_append_left _ List.mem_cons_self) reference.follow_fields

/-- A mapping that is no template, with the key of an item, is in order as an item only. -/
theorem entryInOrder_item_iff {kind : ItemKind} {fields : Fields} {key : String} {n : Node}
    (member : (key, n) ∈ fields) (plain : ¬IsBranchKey key)
    (noTemplate : ∀ path, ("template", path) ∉ fields) :
    EntryInOrder kind (.mapping fields) ↔ fields.Follow (KeyOrder.item kind) ∧
      (∀ pool, ("pool", pool) ∈ fields → FollowsIfMapping KeyOrder.pool pool) ∧
      ∀ inner items, (ItemKind.listKey inner, .sequence items) ∈ fields →
        ∀ item ∈ items, EntryInOrder inner item := by
  constructor
  · intro ordered
    cases ordered with
    | branch isBranch _ => exact absurd isBranch (not_isBranchKey_of_mem member plain)
    | template named _ => exact absurd named (noTemplate _)
    | item follows pools lists => exact ⟨follows, pools, lists⟩
  · intro ⟨follows, pools, lists⟩
    exact .item follows pools lists

/-- The entries of a list are in order, in all that is written of them. -/
def EntriesInOrder {α : Type} [Listed α] (kind : ItemKind) (entries : List (ListItem α)) : Prop :=
  ∀ entry ∈ entries, ∀ node ∈ entry.nodes, EntryInOrder kind node

section Lists

variable {α : Type} [Listed α] {fields : Fields} {kind : ItemKind} {entries : List (ListItem α)}

/-- A list that is written below its key is in order exactly if its entries are. -/
theorem entriesInOrder_iff_of_mem
    (listAt : ∀ items, (kind.listKey, .sequence items) ∈ fields ↔ listNodes entries = items) :
    (∀ items, (kind.listKey, .sequence items) ∈ fields → ∀ item ∈ items, EntryInOrder kind item) ↔
      EntriesInOrder kind entries := by
  unfold EntriesInOrder
  rw [← forall_mem_listNodes_iff]
  constructor
  · intro all
    exact all _ ((listAt _).2 rfl)
  · intro all items member
    rw [← (listAt items).1 member]
    exact all

/-- The same of a list that is left out where nothing is written of it. -/
theorem entriesInOrder_iff_of_mem_ne_nil
    (listAt : ∀ items, (kind.listKey, .sequence items) ∈ fields ↔
      listNodes entries ≠ [] ∧ listNodes entries = items) :
    (∀ items, (kind.listKey, .sequence items) ∈ fields → ∀ item ∈ items, EntryInOrder kind item) ↔
      EntriesInOrder kind entries := by
  unfold EntriesInOrder
  rw [← forall_mem_listNodes_iff]
  constructor
  · intro all node member
    exact all _ ((listAt _).2 ⟨List.ne_nil_of_mem member, rfl⟩) node member
  · intro all items member
    rw [← ((listAt items).1 member).2]
    exact all

/-- The lists of a record with variables and a list of its own. -/
theorem listsInOrder_iff {varItems : List (ListItem Variable)}
    (declaredAt : ∀ items, (ItemKind.variable.listKey, .sequence items) ∈ fields ↔
      listNodes varItems ≠ [] ∧ listNodes varItems = items)
    (ownAt : ∀ items, (kind.listKey, .sequence items) ∈ fields ↔ listNodes entries = items)
    (noOther : ∀ other n, (ItemKind.listKey other, n) ∈ fields → other = .variable ∨ other = kind) :
    (∀ inner items, (ItemKind.listKey inner, .sequence items) ∈ fields →
        ∀ item ∈ items, EntryInOrder inner item) ↔
      EntriesInOrder .variable varItems ∧ EntriesInOrder kind entries := by
  rw [← entriesInOrder_iff_of_mem_ne_nil declaredAt, ← entriesInOrder_iff_of_mem ownAt]
  constructor
  · intro lists
    exact ⟨lists .variable, lists kind⟩
  · intro ⟨ofVariables, ofOwn⟩ inner items member
    rcases noOther inner _ member with rfl | rfl
    · exact ofVariables items member
    · exact ofOwn items member

end Lists

theorem Variable.entryInOrder (v : Variable) : EntryInOrder .variable (.mapping v.fields) := by
  have keys := v.follow_fields
  refine .item keys (fun pool member => ?_) fun inner items member => ?_
  · exact absurd (keys.mem member) (by decide)
  · have known := keys.mem member
    cases inner <;> exact absurd known (by decide)

theorem Step.entryInOrder_iff (s : Step) :
    EntryInOrder .step (.mapping s.fields) ↔ ¬s.HasLatePath := by
  have named : (s.action.key, Node.text s.action.text) ∈ s.fields := by simp [Step.fields]
  have plain := KeyOrder.not_isBranchKey (Step.key_mem_item named)
  have noTemplate (path : Node) (member : ("template", path) ∈ s.fields) : False :=
    absurd (Step.key_mem_item member) (by decide)
  rw [entryInOrder_item_iff named plain noTemplate, s.follow_item_iff]
  refine and_iff_left ⟨fun pool member => ?_, fun inner items member => ?_⟩
  · exact absurd (Step.key_mem_item member) (by decide)
  · have known := Step.key_mem_item member
    cases inner <;> exact absurd known (by decide)

theorem Job.entryInOrder_iff (j : Job) :
    EntryInOrder .job (.mapping j.fields) ↔
      EntriesInOrder .variable j.variableItems ∧ EntriesInOrder .step j.steps := by
  have named : ("job", Node.text j.name) ∈ j.fields := by simp [Job.fields]
  have noTemplate (path : Node) (member : ("template", path) ∈ j.fields) : False :=
    absurd (j.follow_fields.mem member) (by decide)
  have poolAt (n : Node) : ("pool", n) ∈ j.fields ↔ j.pool.map Pool.node = some n := by
    simp [Job.fields]
  have variablesAt (items : List Node) :
      (ItemKind.variable.listKey, Node.sequence items) ∈ j.fields ↔
        listNodes j.variableItems ≠ [] ∧ listNodes j.variableItems = items := by
    simp [Job.fields, ItemKind.listKey]
  have stepsAt (items : List Node) : (ItemKind.step.listKey, Node.sequence items) ∈ j.fields ↔
      listNodes j.steps = items := by
    simp [Job.fields, ItemKind.listKey]
  have noOther (other : ItemKind) (n : Node) (member : (other.listKey, n) ∈ j.fields) :
      other = .variable ∨ other = .step := by
    have known := j.follow_fields.mem member
    cases other <;> revert known <;> decide
  rw [entryInOrder_item_iff named (by decide) noTemplate,
    listsInOrder_iff variablesAt stepsAt noOther, and_iff_right j.follow_fields]
  exact and_iff_right (followsIfMapping_of_poolAt _ poolAt)

theorem Stage.entryInOrder_iff (s : Stage) :
    EntryInOrder .stage (.mapping s.fields) ↔
      EntriesInOrder .variable s.variableItems ∧ EntriesInOrder .job s.jobs := by
  have named : ("stage", Node.text s.name) ∈ s.fields := by simp [Stage.fields]
  have noTemplate (path : Node) (member : ("template", path) ∈ s.fields) : False :=
    absurd (s.follow_fields.mem member) (by decide)
  have poolAt (n : Node) : ("pool", n) ∈ s.fields ↔ s.pool.map Pool.node = some n := by
    simp [Stage.fields]
  have variablesAt (items : List Node) :
      (ItemKind.variable.listKey, Node.sequence items) ∈ s.fields ↔
        listNodes s.variableItems ≠ [] ∧ listNodes s.variableItems = items := by
    simp [Stage.fields, ItemKind.listKey]
  have jobsAt (items : List Node) : (ItemKind.job.listKey, Node.sequence items) ∈ s.fields ↔
      listNodes s.jobs = items := by
    simp [Stage.fields, ItemKind.listKey]
  have noOther (other : ItemKind) (n : Node) (member : (other.listKey, n) ∈ s.fields) :
      other = .variable ∨ other = .job := by
    have known := s.follow_fields.mem member
    cases other <;> revert known <;> decide
  rw [entryInOrder_item_iff named (by decide) noTemplate,
    listsInOrder_iff variablesAt jobsAt noOther, and_iff_right s.follow_fields]
  exact and_iff_right (followsIfMapping_of_poolAt _ poolAt)

/-! ## Documents -/

section Sections

variable {α : Type} [Listed α]

/-- What stands above the jobs or stages of a pipeline is in order, apart from its variables. -/
theorem Preamble.pipelineInOrder (p : Preamble) {kind : ItemKind} (entries : List (ListItem α))
    (isOwn : kind = .job ∨ kind = .stage)
    (lists : ∀ inner items, (ItemKind.listKey inner, .sequence items) ∈
      p.fields ++ Fields.ownList kind.listKey entries → ∀ item ∈ items, EntryInOrder inner item) :
    SectionsInOrder true (p.fields ++ Fields.ownList kind.listKey entries) := by
  refine ⟨?_, ?_, ?_, ?_, ?_, lists⟩
  · apply (p.follow_fields.append (follow_ownList kind.listKey entries)).trans
    rcases isOwn with rfl | rfl <;> decide
  · intro n member
    have given : p.trigger.map Trigger.node = some n := by
      rcases isOwn with rfl | rfl <;> simpa [Preamble.fields, ItemKind.listKey] using member
    obtain ⟨t, _, rfl⟩ := Option.map_eq_some_iff.1 given
    exact t.inOrder_node
  · intro n member
    have given : p.pr.map PrTrigger.node = some n := by
      rcases isOwn with rfl | rfl <;> simpa [Preamble.fields, ItemKind.listKey] using member
    obtain ⟨t, _, rfl⟩ := Option.map_eq_some_iff.1 given
    exact t.inOrder_node
  · intro items member item below
    have given : p.schedules ≠ [] ∧ p.schedules.map Schedule.node = items := by
      rcases isOwn with rfl | rfl <;> simpa [Preamble.fields, ItemKind.listKey] using member
    rw [← given.2] at below
    obtain ⟨s, _, rfl⟩ := List.mem_map.1 below
    exact s.inOrder_node
  · apply followsIfMapping_of_poolAt p.pool
    rcases isOwn with rfl | rfl <;> simp [Preamble.fields, ItemKind.listKey]

theorem Preamble.pipelineInOrder_iff (p : Preamble) (kind : ItemKind)
    (entries : List (ListItem α)) (isOwn : kind = .job ∨ kind = .stage) :
    SectionsInOrder true (p.fields ++ Fields.ownList kind.listKey entries) ↔
      EntriesInOrder .variable p.variableItems ∧ EntriesInOrder kind entries := by
  have variablesAt (items : List Node) :
      (ItemKind.variable.listKey, Node.sequence items) ∈
        p.fields ++ Fields.ownList kind.listKey entries ↔
          listNodes p.variableItems ≠ [] ∧ listNodes p.variableItems = items := by
    rcases isOwn with rfl | rfl <;> simp [Preamble.fields, ItemKind.listKey]
  have ownAt (items : List Node) :
      (kind.listKey, Node.sequence items) ∈ p.fields ++ Fields.ownList kind.listKey entries ↔
        listNodes entries = items := by
    rcases isOwn with rfl | rfl <;> simp [Preamble.fields, ItemKind.listKey]
  have noOther (other : ItemKind) (n : Node)
      (member : (other.listKey, n) ∈ p.fields ++ Fields.ownList kind.listKey entries) :
      other = .variable ∨ other = kind := by
    have known := (p.follow_fields.append (follow_ownList kind.listKey entries)).mem member
    rcases isOwn with rfl | rfl <;> cases other <;> revert known <;> decide
  rw [← listsInOrder_iff variablesAt ownAt noOther]
  exact ⟨SectionsInOrder.lists, p.pipelineInOrder entries isOwn⟩

/-- A template has nothing but its parameters and its list. -/
theorem templateInOrder_iff (kind : ItemKind) (parameters : List DeclaredParameter)
    (entries : List (ListItem α)) :
    SectionsInOrder false (Fields.items "parameters" (parameters.map DeclaredParameter.node) ++
        Fields.ownList kind.listKey entries) ↔ EntriesInOrder kind entries := by
  have follows := (follow_items "parameters" (parameters.map DeclaredParameter.node)).append
    (follow_ownList kind.listKey entries)
  have ownAt (items : List Node) : (kind.listKey, Node.sequence items) ∈
      Fields.items "parameters" (parameters.map DeclaredParameter.node) ++
        Fields.ownList kind.listKey entries ↔ listNodes entries = items := by
    cases kind <;> simp [ItemKind.listKey]
  rw [← entriesInOrder_iff_of_mem ownAt]
  -- Its keys are in order, and none of them is that of a trigger, of schedules or of a pool.
  refine ⟨fun ordered => ordered.lists kind, fun own => ⟨?_, ?_, ?_, ?_, ?_, ?_⟩⟩
  · apply follows.trans
    cases kind <;> decide
  · intro n member
    have known := follows.mem member
    cases kind <;> exact absurd known (by decide)
  · intro n member
    have known := follows.mem member
    cases kind <;> exact absurd known (by decide)
  · intro items member
    have known := follows.mem member
    cases kind <;> exact absurd known (by decide)
  · intro n member
    have known := follows.mem member
    cases kind <;> exact absurd known (by decide)
  · intro inner items member
    have isKind : inner = kind := by
      have known := follows.mem member
      cases kind <;> cases inner <;> revert known <;> decide
    rw [isKind] at member ⊢
    exact own items member

end Sections

namespace TreeNode

/-- The node is a step with a late path. -/
def IsDisordered (node : TreeNode) : Prop := ∃ s, node = stepEntry (.item s) ∧ s.HasLatePath

/-- What is written of the node is in order. -/
def InOrder : TreeNode → Prop
  | document d => SectionsInOrder d.isPipeline d.sections
  | variableEntry entry => ∀ node ∈ entry.nodes, EntryInOrder .variable node
  | stepEntry entry => ∀ node ∈ entry.nodes, EntryInOrder .step node
  | jobEntry entry => ∀ node ∈ entry.nodes, EntryInOrder .job node
  | stageEntry entry => ∀ node ∈ entry.nodes, EntryInOrder .stage node
  | schedule _ | parameter _ | pool _ => True

theorem forall_mem_ofPreamble_inOrder_iff (preamble : Preamble) :
    (∀ child ∈ ofPreamble preamble, child.InOrder) ↔
      EntriesInOrder .variable preamble.variableItems := by
  simp only [ofPreamble, List.forall_mem_append, List.forall_mem_map, InOrder, implies_true,
    true_and, and_true, EntriesInOrder]

theorem inOrder_document_iff (d : Document) :
    (document d).InOrder ↔ ∀ child ∈ (document d).children, child.InOrder := by
  match d with
  | .singleStage preamble jobs =>
    rw [children, List.forall_mem_append, forall_mem_ofPreamble_inOrder_iff, List.forall_mem_map]
    exact preamble.pipelineInOrder_iff .job jobs (.inl rfl)
  | .multiStage preamble stages =>
    rw [children, List.forall_mem_append, forall_mem_ofPreamble_inOrder_iff, List.forall_mem_map]
    exact preamble.pipelineInOrder_iff .stage stages (.inr rfl)
  | .template parameters body =>
    have declared : ∀ child ∈ parameters.map parameter, child.InOrder :=
      List.forall_mem_map.2 fun _ _ => True.intro
    rw [children, List.forall_mem_append, and_iff_right declared]
    cases body with
    | steps items =>
      rw [ofTemplateBody, List.forall_mem_map]
      exact templateInOrder_iff .step parameters items
    | jobs items =>
      rw [ofTemplateBody, List.forall_mem_map]
      exact templateInOrder_iff .job parameters items
    | stages items =>
      rw [ofTemplateBody, List.forall_mem_map]
      exact templateInOrder_iff .stage parameters items
    | variableItems items =>
      rw [ofTemplateBody, List.forall_mem_map]
      exact templateInOrder_iff .variable parameters items

/-- What is written of an entry is in order if its item is, and all entries inside. -/
theorem inOrder_entry_iff {α : Type} [Listed α] (kind : ItemKind) (entry : ListItem α) :
    (∀ node ∈ entry.nodes, EntryInOrder kind node) ↔
      (∀ value, entry = .item value → EntryInOrder kind (.mapping (Listed.fields value))) ∧
        EntriesInOrder kind entry.inner :=
  ListItem.forall_mem_nodes_iff entryInOrder_branch_iff (entryInOrder_template kind) entry

/-- An entry that is no item is in order if all entries inside are. -/
theorem inOrder_entry_iff_inner {α : Type} [Listed α] {kind : ItemKind} {entry : ListItem α}
    (noItem : ∀ value, entry ≠ .item value) :
    (∀ node ∈ entry.nodes, EntryInOrder kind node) ↔ EntriesInOrder kind entry.inner := by
  rw [inOrder_entry_iff]
  exact and_iff_right fun value isItem => absurd isItem (noItem value)

theorem inOrder_variableEntry_iff (entry : ListItem Variable) :
    (variableEntry entry).InOrder ↔ EntriesInOrder .variable entry.inner := by
  rw [InOrder, inOrder_entry_iff]
  exact and_iff_right fun value _ => value.entryInOrder

theorem inOrder_stepEntry_iff (entry : ListItem Step) :
    (stepEntry entry).InOrder ↔
      ¬(stepEntry entry).IsDisordered ∧ EntriesInOrder .step entry.inner := by
  rw [InOrder, inOrder_entry_iff]
  apply and_congr_left'
  constructor
  · intro ordered ⟨s, isItem, late⟩
    rw [stepEntry.injEq] at isItem
    exact (s.entryInOrder_iff.1 (ordered s isItem)) late
  · intro early s isItem
    refine s.entryInOrder_iff.2 fun late => early ⟨s, ?_, late⟩
    rw [isItem]

theorem forall_mem_ofJob_inOrder_iff (job : Job) :
    (∀ child ∈ ofJob job, child.InOrder) ↔
      EntriesInOrder .variable job.variableItems ∧ EntriesInOrder .step job.steps := by
  simp only [ofJob, List.forall_mem_append, List.forall_mem_map, InOrder, implies_true, true_and,
    EntriesInOrder]

theorem forall_mem_ofStage_inOrder_iff (stage : Stage) :
    (∀ child ∈ ofStage stage, child.InOrder) ↔
      EntriesInOrder .variable stage.variableItems ∧ EntriesInOrder .job stage.jobs := by
  simp only [ofStage, List.forall_mem_append, List.forall_mem_map, InOrder, implies_true, true_and,
    EntriesInOrder]

/-- **A node is in order if it is no step with a late path, and its children are in order.** -/
theorem inOrder_iff (node : TreeNode) :
    node.InOrder ↔ ¬node.IsDisordered ∧ ∀ child ∈ node.children, child.InOrder := by
  have early {other : TreeNode} (noStep : ∀ s, other ≠ stepEntry (.item s)) :
      ¬other.IsDisordered := fun ⟨s, isStep, _⟩ => noStep s isStep
  match node with
  | document d => rw [inOrder_document_iff, and_iff_right (early (by simp))]
  | schedule _ | parameter _ | pool _ => simp [InOrder, IsDisordered, children]
  | variableEntry entry =>
    rw [inOrder_variableEntry_iff, and_iff_right (early (by simp)), children, List.forall_mem_map]
    rfl
  | stepEntry entry =>
    rw [inOrder_stepEntry_iff, children, List.forall_mem_map]
    rfl
  | jobEntry (.item job) =>
    rw [and_iff_right (early (by simp)), children, forall_mem_ofJob_inOrder_iff,
      ← job.entryInOrder_iff]
    exact List.forall_mem_singleton
  | stageEntry (.item stage) =>
    rw [and_iff_right (early (by simp)), children, forall_mem_ofStage_inOrder_iff,
      ← stage.entryInOrder_iff]
    exact List.forall_mem_singleton
  | jobEntry (.block _) | jobEntry (.template _) | jobEntry (.fragment _)
  | jobEntry (.foreignFragment _ _) =>
    rw [and_iff_right (early (by simp)), InOrder, inOrder_entry_iff_inner (by simp), children,
      List.forall_mem_map]
    · rfl
    · simp
  | stageEntry (.block _) | stageEntry (.template _) | stageEntry (.fragment _)
  | stageEntry (.foreignFragment _ _) =>
    rw [and_iff_right (early (by simp)), InOrder, inOrder_entry_iff_inner (by simp), children,
      List.forall_mem_map]
    · rfl
    · simp

end TreeNode

namespace Document

/-- **The sections of a document are in order exactly if it has no step with a late path.** -/
theorem sectionsInOrder_iff (document : Document) :
    SectionsInOrder document.isPipeline document.sections ↔
      ∀ node, (TreeNode.document document).Reaches node → ¬node.IsDisordered :=
  TreeNode.iff_forall_reaches TreeNode.inOrder_iff (.document document)

/-- A template with one step, which downloads an artifact into a path. -/
def artifactDownload : Document :=
  .template [] (.steps [.item { action := .download ⟨"current", some "drop", none, some "out"⟩ }])

/-- The template has a text, in which the path stands behind the artifact. -/
theorem artifactDownload_disordered :
    artifactDownload.toYaml {} =
        .ok "steps:\n- download: current\n  artifact: drop\n  path: out\n" ∧
      ¬SectionsInOrder artifactDownload.isPipeline artifactDownload.sections := by
  refine ⟨toYaml_eq_ok_iff.2 ⟨rfl, by decide⟩, fun ordered => ?_⟩
  have entry := ordered.lists .step _ List.mem_cons_self _ List.mem_cons_self
  apply (Step.entryInOrder_iff _).1 entry
  exact ⟨_, rfl, by decide, .inl (by decide)⟩

end Document

end AzurePipelines
