import AzurePipelines.Proofs.Pipeline.Fields
import AzurePipelines.Proofs.Pipeline.Validation
import Mathlib

/-!
# Complete sections

The sections of a document are complete if a pipeline has jobs or stages, every job has steps, every
stage has jobs and every pool can be found, in all branches at any depth (`CompleteSections`).

Validation asks for this of the lists as they are declared, and of pools as they are given.  Nothing
is written of a fragment without items, though (`ListItem.IsHollow`), and a pool may be given a name
or image that is blank.  The sections of a document that has a text are complete exactly if neither
occurs at any depth (`Document.completeSections_iff`), and there are documents where they do
(`Document.hollowPipeline_incomplete`).
-/

namespace AzurePipelines

open Yaml (Node)

/-! ## What is complete -/

/-- A pool is a name, or has a name or image, that is not blank. -/
inductive CompletePool : Node → Prop
  | named {name : String} : Text.IsFilled name → CompletePool (.scalar (.string name))
  | hosted {key text : String} {fields : Fields} : key = "name" ∨ key = "vmImage" →
    (key, .scalar (.string text)) ∈ fields → Text.IsFilled text → CompletePool (.mapping fields)

/-- An entry of a list of jobs or stages: a branch with such entries, a template, a job with steps
or a stage with jobs. -/
inductive CompleteEntry : ItemKind → Node → Prop
  | branch {kind : ItemKind} {key : String} {items : List Node} :
    IsBranchKey key → (∀ item ∈ items, CompleteEntry kind item) →
    CompleteEntry kind (.mapping [(key, .sequence items)])
  | template {kind : ItemKind} {path : Node} {fields : Fields} :
    ("template", path) ∈ fields → CompleteEntry kind (.mapping fields)
  | job {name : Node} {fields : Fields} {steps : List Node} :
    ("job", name) ∈ fields → ("steps", .sequence steps) ∈ fields → steps ≠ [] →
    (∀ pool, ("pool", pool) ∈ fields → CompletePool pool) → CompleteEntry .job (.mapping fields)
  | stage {name : Node} {fields : Fields} {jobs : List Node} :
    ("stage", name) ∈ fields → ("jobs", .sequence jobs) ∈ fields → jobs ≠ [] →
    (∀ job ∈ jobs, CompleteEntry .job job) →
    (∀ pool, ("pool", pool) ∈ fields → CompletePool pool) → CompleteEntry .stage (.mapping fields)

/-- The sections of a pipeline or template. -/
structure CompleteSections (isPipeline : Bool) (sections : Fields) : Prop where
  /-- A pipeline has jobs or stages. -/
  listed : isPipeline = true → ∃ key items, (key = "jobs" ∨ key = "stages") ∧
    (key, .sequence items) ∈ sections ∧ items ≠ []
  jobs : ∀ items, ("jobs", .sequence items) ∈ sections →
    ∀ item ∈ items, CompleteEntry .job item
  stages : ∀ items, ("stages", .sequence items) ∈ sections →
    ∀ item ∈ items, CompleteEntry .stage item
  pools : ∀ pool, ("pool", pool) ∈ sections → CompletePool pool

/-- The document is no template. -/
def Document.isPipeline : Document → Bool
  | .singleStage _ _ | .multiStage _ _ => true
  | .template _ _ => false

/-! ## What makes documents incomplete -/

/-- Nothing is written of the entry: it is a fragment without an item at any depth, or one that has
no place in its list. -/
inductive ListItem.IsHollow {α : Type} : ListItem α → Prop
  | fragment {items : List (ListItem α)} :
    (∀ item ∈ items, item.IsHollow) → IsHollow (.fragment items)
  | foreignFragment {kind : ItemKind} {size : Nat} : IsHollow (.foreignFragment kind size)

/-- The node may obey its rule, and leaves the document incomplete: all entries of a list that has
to hold something are hollow, or a pool is given nothing but blanks. -/
def TreeNode.IsDeficient : TreeNode → Prop
  | .document (.singleStage _ jobs) => ∀ entry ∈ jobs, entry.IsHollow
  | .document (.multiStage _ stages) => ∀ entry ∈ stages, entry.IsHollow
  | .jobEntry (.item job) => ∀ entry ∈ job.steps, entry.IsHollow
  | .stageEntry (.item stage) => ∀ entry ∈ stage.jobs, entry.IsHollow
  | .pool (.hosted name vmImage _) =>
    ∀ text, name = some text ∨ vmImage = some text → ¬Text.IsFilled text
  | _ => False

/-! ## Hollow entries -/

theorem ListItem.isHollow_fragment_iff {α : Type} {items : List (ListItem α)} :
    (ListItem.fragment items).IsHollow ↔ ∀ item ∈ items, item.IsHollow := by
  constructor
  · intro hollow
    cases hollow with
    | fragment hollow => exact hollow
  · exact .fragment

section Lists

variable {α : Type} [Listed α]

mutual

/-- Hollow entries are those of which nothing is written. -/
theorem ListItem.nodes_eq_nil_iff (entry : ListItem α) : entry.nodes = [] ↔ entry.IsHollow := by
  match entry with
  | .item value =>
    have solid : ¬(ListItem.item value).IsHollow := by
      intro hollow
      cases hollow
    simpa [ListItem.nodes] using solid
  | .block ⟨condition, items, elseIfs, elseItems⟩ =>
    have solid : ¬(ListItem.block ⟨condition, items, elseIfs, elseItems⟩).IsHollow := by
      intro hollow
      cases hollow
    simpa [ListItem.nodes, Conditioned.nodes] using solid
  | .template reference =>
    have solid : ¬(ListItem.template reference : ListItem α).IsHollow := by
      intro hollow
      cases hollow
    simpa [ListItem.nodes] using solid
  | .fragment items =>
    rw [ListItem.nodes, listNodes_eq_nil_iff items, ListItem.isHollow_fragment_iff]
  | .foreignFragment kind size => simpa [ListItem.nodes] using ListItem.IsHollow.foreignFragment

theorem listNodes_eq_nil_iff (entries : List (ListItem α)) :
    listNodes entries = [] ↔ ∀ entry ∈ entries, entry.IsHollow := by
  match entries with
  | [] => simp [listNodes]
  | entry :: others =>
    rw [listNodes, List.append_eq_nil_iff, entry.nodes_eq_nil_iff, listNodes_eq_nil_iff others,
      List.forall_mem_cons]

end

/-! ## Branches and templates -/

/-- What holds of a template, and of a branch exactly if it holds of all in the branch, holds of the
nodes of an entry exactly if it holds of an item, and of the nodes of all entries inside. -/
theorem ListItem.forall_mem_nodes_iff {holds : Node → Prop}
    (branch : ∀ key items, IsBranchKey key →
      (holds (.mapping [(key, .sequence items)]) ↔ ∀ item ∈ items, holds item))
    (template : ∀ reference : TemplateReference, holds reference.node) (entry : ListItem α) :
    (∀ node ∈ entry.nodes, holds node) ↔
      (∀ value, entry = .item value → holds (.mapping (Listed.fields value))) ∧
        ∀ lower ∈ entry.inner, ∀ node ∈ lower.nodes, holds node := by
  cases entry with
  | item value => simp [ListItem.nodes, inner]
  | template reference => simp [ListItem.nodes, inner, template]
  | fragment items => simp [ListItem.nodes, inner, forall_mem_listNodes_iff]
  | foreignFragment kind size => simp [ListItem.nodes, inner]
  | block branches =>
    obtain ⟨condition, items, elseIfs, elseItems⟩ := branches
    have first := branch _ (listNodes items) (isBranchKey_ifKey condition)
    have further : (∀ node ∈ branchNodes elseIfs, holds node) ↔
        ∀ lower ∈ elseIfs.flatMap Branch.items, ∀ node ∈ lower.nodes, holds node := by
      rw [branchNodes_eq_map, List.forall_mem_map, List.forall_mem_flatMap]
      refine forall₂_congr fun lower _ => ?_
      obtain ⟨lowerCondition, lowerItems⟩ := lower
      rw [Branch.node, branch _ _ (isBranchKey_elseIfKey lowerCondition), forall_mem_listNodes_iff]
    have last : (∀ node ∈ elseNodes elseItems, holds node) ↔
        ∀ lower ∈ elseItems.getD [], ∀ node ∈ lower.nodes, holds node := by
      cases elseItems with
      | none => simp [elseNodes]
      | some others =>
        rw [elseNodes, List.forall_mem_singleton, branch _ _ isBranchKey_elseKey,
          forall_mem_listNodes_iff, Option.getD_some]
    rw [ListItem.nodes, Conditioned.nodes, List.forall_mem_cons, List.forall_mem_append, first,
      further, last, forall_mem_listNodes_iff]
    simp only [inner, List.forall_mem_append, reduceCtorEq, false_implies, implies_true, true_and]

end Lists

/-- A mapping with a key that is no branch is not that of a branch. -/
theorem not_isBranchKey_of_mem {key other : String} {n m : Node} (member : (other, n) ∈ [(key, m)])
    (plain : ¬IsBranchKey other) : ¬IsBranchKey key := by
  rw [List.mem_singleton, Prod.mk.injEq] at member
  rwa [← member.1]

theorem completeEntry_branch_iff {kind : ItemKind} (key : String) (items : List Node)
    (isBranch : IsBranchKey key) :
    CompleteEntry kind (.mapping [(key, .sequence items)]) ↔
      ∀ item ∈ items, CompleteEntry kind item := by
  constructor
  · intro complete
    cases complete with
    | branch _ complete => exact complete
    | template member => exact absurd isBranch (not_isBranchKey_of_mem member (by decide))
    | job member _ _ _ => exact absurd isBranch (not_isBranchKey_of_mem member (by decide))
    | stage member _ _ _ _ => exact absurd isBranch (not_isBranchKey_of_mem member (by decide))
  · exact .branch isBranch

theorem completeEntry_template (kind : ItemKind) (reference : TemplateReference) :
    CompleteEntry kind reference.node :=
  .template (List.mem_append_left _ List.mem_cons_self)

/-! ## Pools, jobs and stages -/

theorem completePool_named_iff (name : String) :
    CompletePool (Pool.named name).node ↔ Text.IsFilled name := by
  constructor
  · intro complete
    cases complete with
    | named filled => exact filled
  · exact .named

theorem completePool_hosted_iff (name vmImage : Option String) (demands : List String) :
    CompletePool (Pool.hosted name vmImage demands).node ↔
      ∃ text, (name = some text ∨ vmImage = some text) ∧ Text.IsFilled text := by
  constructor
  · intro complete
    cases complete with
    | @hosted key text _ isKey member filled =>
      refine ⟨text, ?_, filled⟩
      rcases isKey with rfl | rfl
      · exact .inl (by simpa [Node.text] using member)
      · exact .inr (by simpa [Node.text] using member)
  · rintro ⟨text, rfl | rfl, filled⟩
    · exact .hosted (.inl rfl) (by simp [Node.text]) filled
    · exact .hosted (.inr rfl) (by simp [Node.text]) filled

/-- The pool of a record is all that stands at its key. -/
theorem forall_pool_iff {fields : Fields} {pool : Option Pool}
    (poolAt : ∀ n, ("pool", n) ∈ fields ↔ pool.map Pool.node = some n) :
    (∀ n, ("pool", n) ∈ fields → CompletePool n) ↔ ∀ p ∈ pool.toList, CompletePool p.node := by
  cases pool with
  | none => simp [poolAt]
  | some p => simp [poolAt]

/-- A mapping with the key of a job is complete as a job only. -/
theorem completeEntry_job_iff_of_mem {fields : Fields} {name : Node}
    (named : ("job", name) ∈ fields) (noTemplate : ∀ path, ("template", path) ∉ fields) :
    CompleteEntry .job (.mapping fields) ↔
      (∃ steps, ("steps", .sequence steps) ∈ fields ∧ steps ≠ []) ∧
        ∀ pool, ("pool", pool) ∈ fields → CompletePool pool := by
  constructor
  · intro complete
    cases complete with
    | branch isBranch _ => exact absurd isBranch (not_isBranchKey_of_mem named (by decide))
    | template member => exact absurd member (noTemplate _)
    | job _ member nonempty found => exact ⟨⟨_, member, nonempty⟩, found⟩
  · rintro ⟨⟨steps, member, nonempty⟩, found⟩
    exact .job named member nonempty found

theorem completeEntry_job_iff (job : Job) :
    CompleteEntry .job (.mapping job.fields) ↔
      (∃ entry ∈ job.steps, ¬entry.IsHollow) ∧
        ∀ pool ∈ job.pool.toList, CompletePool pool.node := by
  have named : ("job", Node.text job.name) ∈ job.fields := by simp [Job.fields]
  have steps (items : List Node) :
      ("steps", Node.sequence items) ∈ job.fields ↔ listNodes job.steps = items := by
    simp [Job.fields]
  have pools (n : Node) : ("pool", n) ∈ job.fields ↔ job.pool.map Pool.node = some n := by
    simp [Job.fields]
  rw [completeEntry_job_iff_of_mem named (by simp [Job.fields]), forall_pool_iff pools]
  simp only [steps, exists_eq_left', ne_eq, listNodes_eq_nil_iff, not_forall, exists_prop]

/-- A mapping with the key of a stage is complete as a stage only. -/
theorem completeEntry_stage_iff_of_mem {fields : Fields} {name : Node}
    (named : ("stage", name) ∈ fields) (noTemplate : ∀ path, ("template", path) ∉ fields) :
    CompleteEntry .stage (.mapping fields) ↔
      (∃ jobs, ("jobs", .sequence jobs) ∈ fields ∧ jobs ≠ [] ∧
        ∀ job ∈ jobs, CompleteEntry .job job) ∧
          ∀ pool, ("pool", pool) ∈ fields → CompletePool pool := by
  constructor
  · intro complete
    cases complete with
    | branch isBranch _ => exact absurd isBranch (not_isBranchKey_of_mem named (by decide))
    | template member => exact absurd member (noTemplate _)
    | stage _ member nonempty complete found => exact ⟨⟨_, member, nonempty, complete⟩, found⟩
  · rintro ⟨⟨jobs, member, nonempty, complete⟩, found⟩
    exact .stage named member nonempty complete found

theorem completeEntry_stage_iff (stage : Stage) :
    CompleteEntry .stage (.mapping stage.fields) ↔
      (∃ entry ∈ stage.jobs, ¬entry.IsHollow) ∧
        (∀ pool ∈ stage.pool.toList, CompletePool pool.node) ∧
        ∀ entry ∈ stage.jobs, ∀ node ∈ entry.nodes, CompleteEntry .job node := by
  have named : ("stage", Node.text stage.name) ∈ stage.fields := by simp [Stage.fields]
  have jobs (items : List Node) :
      ("jobs", Node.sequence items) ∈ stage.fields ↔ listNodes stage.jobs = items := by
    simp [Stage.fields]
  have pools (n : Node) : ("pool", n) ∈ stage.fields ↔ stage.pool.map Pool.node = some n := by
    simp [Stage.fields]
  rw [completeEntry_stage_iff_of_mem named (by simp [Stage.fields]), forall_pool_iff pools,
    ← forall_mem_listNodes_iff, and_comm (b := ∀ node ∈ listNodes stage.jobs, _), ← and_assoc]
  simp only [jobs, exists_eq_left', ne_eq, listNodes_eq_nil_iff, not_forall, exists_prop]

/-! ## Documents -/

/-- Sections are complete by what stands at three of their keys. -/
theorem completeSections_iff_of_mem {isPipeline : Bool} {sections : Fields}
    (jobs stages : Option (List Node)) (pool : Option Pool)
    (jobsAt : ∀ n, ("jobs", n) ∈ sections ↔ jobs.map .sequence = some n)
    (stagesAt : ∀ n, ("stages", n) ∈ sections ↔ stages.map .sequence = some n)
    (poolAt : ∀ n, ("pool", n) ∈ sections ↔ pool.map Pool.node = some n) :
    CompleteSections isPipeline sections ↔
      (isPipeline = true → ∃ items, (jobs = some items ∨ stages = some items) ∧ items ≠ []) ∧
        (∀ items, jobs = some items → ∀ item ∈ items, CompleteEntry .job item) ∧
          (∀ items, stages = some items → ∀ item ∈ items, CompleteEntry .stage item) ∧
            ∀ p ∈ pool.toList, CompletePool p.node := by
  have jobsMem (items : List Node) :
      ("jobs", Node.sequence items) ∈ sections ↔ jobs = some items := by
    simp [jobsAt]
  have stagesMem (items : List Node) :
      ("stages", Node.sequence items) ∈ sections ↔ stages = some items := by
    simp [stagesAt]
  constructor
  · rintro ⟨listed, jobsComplete, stagesComplete, poolsComplete⟩
    refine ⟨fun isTrue => ?_, ?_, ?_, ?_⟩
    · obtain ⟨key, items, rfl | rfl, member, nonempty⟩ := listed isTrue
      · exact ⟨items, .inl ((jobsMem items).1 member), nonempty⟩
      · exact ⟨items, .inr ((stagesMem items).1 member), nonempty⟩
    · exact fun items given => jobsComplete items ((jobsMem items).2 given)
    · exact fun items given => stagesComplete items ((stagesMem items).2 given)
    · exact (forall_pool_iff poolAt).1 poolsComplete
  · rintro ⟨listed, jobsComplete, stagesComplete, poolsComplete⟩
    refine ⟨fun isTrue => ?_, ?_, ?_, ?_⟩
    · obtain ⟨items, given | given, nonempty⟩ := listed isTrue
      · exact ⟨"jobs", items, .inl rfl, (jobsMem items).2 given, nonempty⟩
      · exact ⟨"stages", items, .inr rfl, (stagesMem items).2 given, nonempty⟩
    · exact fun items member => jobsComplete items ((jobsMem items).1 member)
    · exact fun items member => stagesComplete items ((stagesMem items).1 member)
    · exact (forall_pool_iff poolAt).2 poolsComplete

theorem completeSections_singleStage_iff (preamble : Preamble) (jobs : List (ListItem Job)) :
    CompleteSections true (Document.singleStage preamble jobs).sections ↔
      listNodes jobs ≠ [] ∧ (∀ item ∈ listNodes jobs, CompleteEntry .job item) ∧
        ∀ p ∈ preamble.pool.toList, CompletePool p.node := by
  rw [completeSections_iff_of_mem (some (listNodes jobs)) none preamble.pool]
  · simp
  all_goals simp [Document.sections, Preamble.fields]

theorem completeSections_multiStage_iff (preamble : Preamble) (stages : List (ListItem Stage)) :
    CompleteSections true (Document.multiStage preamble stages).sections ↔
      listNodes stages ≠ [] ∧ (∀ item ∈ listNodes stages, CompleteEntry .stage item) ∧
        ∀ p ∈ preamble.pool.toList, CompletePool p.node := by
  rw [completeSections_iff_of_mem none (some (listNodes stages)) preamble.pool]
  · simp
  all_goals simp [Document.sections, Preamble.fields]

theorem completeSections_template_iff (parameters : List DeclaredParameter) (body : TemplateBody) :
    CompleteSections false (Document.template parameters body).sections ↔
      (∀ jobs, body = .jobs jobs → ∀ item ∈ listNodes jobs, CompleteEntry .job item) ∧
        ∀ stages, body = .stages stages → ∀ item ∈ listNodes stages, CompleteEntry .stage item := by
  cases body with
  | jobs items =>
    rw [completeSections_iff_of_mem (some (listNodes items)) none none]
    · simp
    all_goals simp [Document.sections, TemplateBody.fields]
  | stages items =>
    rw [completeSections_iff_of_mem none (some (listNodes items)) none]
    · simp
    all_goals simp [Document.sections, TemplateBody.fields]
  | steps items =>
    rw [completeSections_iff_of_mem none none none]
    · simp
    all_goals simp [Document.sections, TemplateBody.fields]
  | variableItems items =>
    rw [completeSections_iff_of_mem none none none]
    · simp
    all_goals simp [Document.sections, TemplateBody.fields]

namespace TreeNode

/-- What is written of the node is complete. -/
def IsComplete : TreeNode → Prop
  | document d => CompleteSections d.isPipeline d.sections
  | pool p => CompletePool p.node
  | jobEntry entry => ∀ node ∈ entry.nodes, CompleteEntry .job node
  | stageEntry entry => ∀ node ∈ entry.nodes, CompleteEntry .stage node
  | schedule _ | parameter _ | variableEntry _ | stepEntry _ => True

/-- The rule of complete nodes. -/
def IsSound (node : TreeNode) : Prop :=
  ¬node.IsDeficient ∧ ∀ name, node = pool (.named name) → Text.IsFilled name

theorem isSound_iff {node : TreeNode} (notNamed : ∀ name, node ≠ pool (.named name)) :
    node.IsSound ↔ ¬node.IsDeficient :=
  and_iff_left fun name isNamed => absurd isNamed (notNamed name)

theorem isComplete_pool_iff (p : Pool) : (pool p).IsComplete ↔ (pool p).IsSound := by
  cases p with
  | named name =>
    have given : (∀ text, pool (.named name) = pool (.named text) → Text.IsFilled text) ↔
        Text.IsFilled name := by
      constructor
      · exact fun filled => filled name rfl
      · rintro filled _ ⟨⟩
        exact filled
    rw [IsComplete, completePool_named_iff, IsSound, given]
    simp [IsDeficient]
  | hosted name vmImage demands =>
    rw [IsComplete, completePool_hosted_iff, isSound_iff (by simp)]
    simp [IsDeficient]

theorem forall_mem_ofPreamble_iff (preamble : Preamble) :
    (∀ child ∈ ofPreamble preamble, child.IsComplete) ↔
      ∀ p ∈ preamble.pool.toList, CompletePool p.node := by
  simp only [ofPreamble, List.forall_mem_append, List.forall_mem_map, IsComplete, implies_true,
    true_and]

theorem isComplete_job_iff (job : Job) :
    (jobEntry (.item job)).IsComplete ↔
      (jobEntry (.item job)).IsSound ∧ ∀ child ∈ ofJob job, child.IsComplete := by
  rw [isSound_iff (by simp)]
  simp only [IsComplete, ListItem.nodes, List.forall_mem_singleton, Listed.fields,
    completeEntry_job_iff, IsDeficient, not_forall, exists_prop, ofJob, List.forall_mem_append,
    List.forall_mem_map, implies_true, and_true]

theorem isComplete_stage_iff (stage : Stage) :
    (stageEntry (.item stage)).IsComplete ↔
      (stageEntry (.item stage)).IsSound ∧ ∀ child ∈ ofStage stage, child.IsComplete := by
  rw [isSound_iff (by simp)]
  simp only [IsComplete, ListItem.nodes, List.forall_mem_singleton, Listed.fields,
    completeEntry_stage_iff, IsDeficient, not_forall, exists_prop, ofStage, List.forall_mem_append,
    List.forall_mem_map, implies_true, and_true]

/-- The case of an entry that is no item. -/
theorem isComplete_entry_iff {α : Type} [Listed α] {kind : ItemKind} (entry : ListItem α)
    (noItem : ∀ value, entry ≠ .item value) :
    (∀ node ∈ entry.nodes, CompleteEntry kind node) ↔
      ∀ lower ∈ entry.inner, ∀ node ∈ lower.nodes, CompleteEntry kind node := by
  rw [ListItem.forall_mem_nodes_iff completeEntry_branch_iff (completeEntry_template kind)]
  exact and_iff_right fun value isItem => absurd isItem (noItem value)

theorem isComplete_document_iff (d : Document) :
    (document d).IsComplete ↔
      (document d).IsSound ∧ ∀ child ∈ (document d).children, child.IsComplete := by
  rw [isSound_iff (by simp)]
  match d with
  | .singleStage preamble jobs =>
    rw [IsComplete, Document.isPipeline, completeSections_singleStage_iff, ne_eq,
      listNodes_eq_nil_iff, forall_mem_listNodes_iff, children, List.forall_mem_append,
      forall_mem_ofPreamble_iff, List.forall_mem_map, IsDeficient]
    simp only [IsComplete]
    tauto
  | .multiStage preamble stages =>
    rw [IsComplete, Document.isPipeline, completeSections_multiStage_iff, ne_eq,
      listNodes_eq_nil_iff, forall_mem_listNodes_iff, children, List.forall_mem_append,
      forall_mem_ofPreamble_iff, List.forall_mem_map, IsDeficient]
    simp only [IsComplete]
    tauto
  | .template parameters body =>
    rw [IsComplete, Document.isPipeline, completeSections_template_iff, children,
      List.forall_mem_append, List.forall_mem_map]
    cases body <;>
      simp [IsDeficient, IsComplete, ofTemplateBody, forall_mem_listNodes_iff]

/-- **A node is complete if it is sound, and its children are complete.** -/
theorem isComplete_iff (node : TreeNode) :
    node.IsComplete ↔ node.IsSound ∧ ∀ child ∈ node.children, child.IsComplete := by
  match node with
  | document d => exact isComplete_document_iff d
  | pool p =>
    rw [isComplete_pool_iff]
    simp [children]
  | jobEntry (.item job) => exact isComplete_job_iff job
  | stageEntry (.item stage) => exact isComplete_stage_iff stage
  | schedule _ | parameter _ =>
    rw [isSound_iff (by simp)]
    simp [IsComplete, IsDeficient, children]
  | variableEntry entry | stepEntry entry =>
    rw [isSound_iff (by simp)]
    simp only [IsComplete, IsDeficient, children, List.forall_mem_map, implies_true, not_false_iff,
      and_true]
  | jobEntry (.block _) | jobEntry (.template _) | jobEntry (.fragment _)
  | jobEntry (.foreignFragment _ _) =>
    rw [isSound_iff (by simp), IsComplete, isComplete_entry_iff _ (by simp)]
    simp only [IsComplete, IsDeficient, children, List.forall_mem_map, not_false_iff, true_and]
  | stageEntry (.block _) | stageEntry (.template _) | stageEntry (.fragment _)
  | stageEntry (.foreignFragment _ _) =>
    rw [isSound_iff (by simp), IsComplete, isComplete_entry_iff _ (by simp)]
    simp only [IsComplete, IsDeficient, children, List.forall_mem_map, not_false_iff, true_and]

end TreeNode

namespace Document

/-- **The sections of a document that has a text are complete exactly if no node of its tree is
deficient.** -/
theorem completeSections_iff {config : SerializerConfig} {document : Document} {text : String}
    (written : document.toYaml config = .ok text) :
    CompleteSections document.isPipeline document.sections ↔
      ∀ node, (TreeNode.document document).Reaches node → ¬node.IsDeficient := by
  have obeyed := document.faults_eq_nil_iff.1 (toYaml_eq_ok_iff.1 written).1
  have complete := TreeNode.iff_forall_reaches TreeNode.isComplete_iff (.document document)
  refine complete.trans (forall₂_congr fun node reached => and_iff_left fun name isNamed => ?_)
  have rule := obeyed node reached
  rwa [isNamed] at rule

/-- A pipeline with one job, the steps of which are a fragment without items. -/
def hollowPipeline : Document :=
  .singleStage ⟨none, none, none, [], [], [], none⟩
    [.item { name := "Build", steps := [.fragment []] }]

theorem completeSections_iff_hollowPipeline :
    hollowPipeline.toYaml {} = .ok "jobs:\n- job: Build\n  steps: []\n" ∧
      (CompleteSections true hollowPipeline.sections ↔
        ∀ node, (TreeNode.document hollowPipeline).Reaches node → ¬node.IsDeficient) := by
  have written : hollowPipeline.toYaml {} = .ok "jobs:\n- job: Build\n  steps: []\n" :=
    toYaml_eq_ok_iff.2 ⟨rfl, by decide⟩
  exact ⟨written, completeSections_iff written⟩

/-- The pipeline has a text, in which its job has no steps. -/
theorem hollowPipeline_incomplete :
    (∃ text, hollowPipeline.toYaml {} = .ok text) ∧
      ¬CompleteSections hollowPipeline.isPipeline hollowPipeline.sections := by
  refine ⟨⟨_, toYaml_eq_ok_iff.2 ⟨rfl, rfl⟩⟩, fun complete => ?_⟩
  have job := complete.jobs _ List.mem_cons_self _ List.mem_cons_self
  obtain ⟨⟨entry, member, solid⟩, _⟩ := (completeEntry_job_iff _).1 job
  rw [List.mem_singleton.1 member] at solid
  exact solid (.fragment (by simp))

end Document

end AzurePipelines
