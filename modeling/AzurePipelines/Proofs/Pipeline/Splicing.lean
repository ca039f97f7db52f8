import AzurePipelines.Proofs.Pipeline.Recovery
import AzurePipelines.Proofs.Pipeline.Validation
import Mathlib

/-!
# Fragments are transparent

`Document.splice` replaces every fragment by its items, at any depth: in fragments, in the branches
of blocks, and in the lists of jobs and stages.  Nothing that is written changes by it
(`Document.sections_splice`), and it mends no fault.  Whenever the spliced document has a text, it
has no fragment, and the document has the same text (`Document.toYaml_splice`).  The other direction
fails only because a list of hollow fragments becomes an empty list.

A fragment of another kind than its list has no items that could stand there, and stays; a document
with such a fragment has no text, spliced or not.
-/

namespace AzurePipelines

open Yaml (Node)

/-! ## Lists -/

section Lists

variable {α : Type}

mutual

/-- What stands in the place of an entry once fragments are replaced by their items, at any depth of
the entry; `inside` does the same inside of an item. -/
def ListItem.splice (inside : α → α) : ListItem α → List (ListItem α)
  | .item value => [.item (inside value)]
  | .block branches => [.block (branches.splice inside)]
  | .template reference => [.template reference]
  | .fragment items => spliceItems inside items
  | .foreignFragment kind size => [.foreignFragment kind size]

def spliceItems (inside : α → α) : List (ListItem α) → List (ListItem α)
  | [] => []
  | entry :: rest => entry.splice inside ++ spliceItems inside rest

def Conditioned.splice (inside : α → α) : Conditioned α → Conditioned α
  | ⟨condition, items, elseIfs, elseItems⟩ =>
    ⟨condition, spliceItems inside items, spliceBranches inside elseIfs,
      spliceElse inside elseItems⟩

def spliceBranches (inside : α → α) : List (Branch α) → List (Branch α)
  | [] => []
  | branch :: rest => branch.splice inside :: spliceBranches inside rest

def Branch.splice (inside : α → α) : Branch α → Branch α
  | ⟨condition, items⟩ => ⟨condition, spliceItems inside items⟩

def spliceElse (inside : α → α) : Option (List (ListItem α)) → Option (List (ListItem α))
  | none => none
  | some items => some (spliceItems inside items)

end

variable {inside : α → α}

theorem spliceItems_eq_flatMap (entries : List (ListItem α)) :
    spliceItems inside entries = entries.flatMap (ListItem.splice inside) := by
  induction entries with
  | nil => simp [spliceItems]
  | cons entry entries ih => simp [spliceItems, ih]

/-- Nothing is missing from a list if nothing is missing from the spliced list. -/
theorem emptyFault_of_splice {entries : List (ListItem α)} {fault : Fault}
    (spliced : (if (spliceItems inside entries).isEmpty then [fault] else []) = []) :
    (if entries.isEmpty then [fault] else []) = [] := by
  cases entries with
  | nil =>
    rw [spliceItems] at spliced
    exact spliced
  | cons entry entries => rfl

theorem flatMap_items_spliceBranches (branches : List (Branch α)) :
    (spliceBranches inside branches).flatMap Branch.items =
      (branches.flatMap Branch.items).flatMap (ListItem.splice inside) := by
  induction branches with
  | nil => simp [spliceBranches]
  | cons branch branches ih =>
    obtain ⟨condition, items⟩ := branch
    simp [spliceBranches, Branch.splice, ih, spliceItems_eq_flatMap, List.flatMap_append]

/-- Splicing goes on inside of a block. -/
theorem ListItem.inner_splice (branches : Conditioned α) :
    (ListItem.block (branches.splice inside)).inner =
      (ListItem.block branches).inner.flatMap (ListItem.splice inside) := by
  obtain ⟨condition, items, elseIfs, elseItems⟩ := branches
  cases elseItems <;>
    simp [Conditioned.splice, inner, spliceElse, flatMap_items_spliceBranches,
      spliceItems_eq_flatMap, List.flatMap_append]

/-- No fragment is left in the place of an entry. -/
theorem ListItem.ne_fragment_of_mem_splice (entry : ListItem α) {other : ListItem α}
    (member : other ∈ entry.splice inside) (items : List (ListItem α)) :
    other ≠ .fragment items := by
  match entry with
  | .item value | .block branches | .template reference | .foreignFragment kind size =>
    rw [ListItem.splice, List.mem_singleton] at member
    rw [member]
    rintro ⟨⟩
  | .fragment others =>
    rw [ListItem.splice, spliceItems_eq_flatMap, List.mem_flatMap] at member
    obtain ⟨lower, below, member⟩ := member
    have smaller : sizeOf lower < sizeOf others := List.sizeOf_lt_of_mem below
    exact lower.ne_fragment_of_mem_splice member items
termination_by sizeOf entry
decreasing_by
  rw [ListItem.fragment.sizeOf_spec]
  omega

/-! ### Nodes -/

theorem listNodes_append [Listed α] (entries others : List (ListItem α)) :
    listNodes (entries ++ others) = listNodes entries ++ listNodes others := by
  simp only [listNodes_eq_flatMap, List.flatMap_append]

mutual

/-- The items of a fragment are written as the fragment is. -/
theorem ListItem.listNodes_splice [Listed α] (inside : α → α)
    (kept : ∀ value, Listed.fields (inside value) = Listed.fields value) (entry : ListItem α) :
    listNodes (entry.splice inside) = entry.nodes := by
  match entry with
  | .item value => simp only [ListItem.splice, listNodes, ListItem.nodes, kept, List.append_nil]
  | .block branches =>
    simp only [ListItem.splice, listNodes, ListItem.nodes,
      Conditioned.nodes_splice inside kept branches, List.append_nil]
  | .template reference => simp only [ListItem.splice, listNodes, List.append_nil]
  | .fragment items => rw [ListItem.splice, ListItem.nodes, listNodes_spliceItems inside kept items]
  | .foreignFragment kind size => simp only [ListItem.splice, listNodes, List.append_nil]

theorem listNodes_spliceItems [Listed α] (inside : α → α)
    (kept : ∀ value, Listed.fields (inside value) = Listed.fields value)
    (entries : List (ListItem α)) : listNodes (spliceItems inside entries) = listNodes entries := by
  match entries with
  | [] => rw [spliceItems]
  | entry :: rest =>
    rw [spliceItems, listNodes_append, ListItem.listNodes_splice inside kept entry,
      listNodes_spliceItems inside kept rest, listNodes]

theorem Conditioned.nodes_splice [Listed α] (inside : α → α)
    (kept : ∀ value, Listed.fields (inside value) = Listed.fields value)
    (branches : Conditioned α) : (branches.splice inside).nodes = branches.nodes := by
  match branches with
  | ⟨condition, items, elseIfs, elseItems⟩ =>
    rw [Conditioned.splice, Conditioned.nodes, Conditioned.nodes,
      listNodes_spliceItems inside kept items, branchNodes_spliceBranches inside kept elseIfs,
      elseNodes_spliceElse inside kept elseItems]

theorem branchNodes_spliceBranches [Listed α] (inside : α → α)
    (kept : ∀ value, Listed.fields (inside value) = Listed.fields value)
    (branches : List (Branch α)) :
    branchNodes (spliceBranches inside branches) = branchNodes branches := by
  match branches with
  | [] => rw [spliceBranches]
  | branch :: rest =>
    rw [spliceBranches, branchNodes, branchNodes, Branch.node_splice inside kept branch,
      branchNodes_spliceBranches inside kept rest]

theorem Branch.node_splice [Listed α] (inside : α → α)
    (kept : ∀ value, Listed.fields (inside value) = Listed.fields value) (branch : Branch α) :
    (branch.splice inside).node = branch.node := by
  match branch with
  | ⟨condition, items⟩ =>
    rw [Branch.splice, Branch.node, Branch.node, listNodes_spliceItems inside kept items]

theorem elseNodes_spliceElse [Listed α] (inside : α → α)
    (kept : ∀ value, Listed.fields (inside value) = Listed.fields value)
    (elseItems : Option (List (ListItem α))) :
    elseNodes (spliceElse inside elseItems) = elseNodes elseItems := by
  match elseItems with
  | none => rw [spliceElse]
  | some items => rw [spliceElse, elseNodes, elseNodes, listNodes_spliceItems inside kept items]

end

/-! ### Faults -/

variable [Checked α]

/-- An entry is without faults if all that stands in its place is. -/
theorem ListItem.faults_eq_nil_of_splice
    (sound : ∀ value, Checked.faults (inside value) = [] → Checked.faults value = [])
    (entry : ListItem α) (spliced : ∀ other ∈ entry.splice inside, other.faults = []) :
    entry.faults = [] := by
  -- Blocks and fragments are spliced inside, so that the claim passes on to the entries there.
  have below (others : ∀ other ∈ entry.inner.flatMap (ListItem.splice inside), other.faults = []) :
      ∀ lower ∈ entry.inner, lower.faults = [] := by
    intro lower member
    have smaller := ListItem.sizeOf_lt_of_mem_inner member
    exact ListItem.faults_eq_nil_of_splice sound lower fun other place =>
      others other (List.mem_flatMap.2 ⟨lower, member, place⟩)
  cases entry with
  | item value =>
    rw [ListItem.splice, List.forall_mem_singleton] at spliced
    exact sound value spliced
  | template reference => rwa [ListItem.splice, List.forall_mem_singleton] at spliced
  | foreignFragment kind size => rwa [ListItem.splice, List.forall_mem_singleton] at spliced
  | fragment items =>
    rw [ListItem.splice, spliceItems_eq_flatMap] at spliced
    exact (ListItem.faults_eq_nil_iff _).2 ⟨trivial, below spliced⟩
  | block branches =>
    rw [ListItem.splice, List.forall_mem_singleton, ListItem.faults_eq_nil_iff,
      ListItem.inner_splice] at spliced
    exact (ListItem.faults_eq_nil_iff _).2 ⟨trivial, below spliced.2⟩
termination_by sizeOf entry

theorem fieldFaults_eq_nil_of_splice {name : String}
    (sound : ∀ value, Checked.faults (inside value) = [] → Checked.faults value = [])
    {entries : List (ListItem α)} (spliced : fieldFaults name (spliceItems inside entries) = []) :
    fieldFaults name entries = [] := by
  rw [fieldFaults_eq_nil_iff, spliceItems_eq_flatMap, List.forall_mem_flatMap] at spliced
  rw [fieldFaults_eq_nil_iff]
  exact fun entry member => entry.faults_eq_nil_of_splice sound (spliced entry member)

/-! ### Fragments -/

/-- No fragment is left at any depth, where none is of another kind than its list. -/
theorem ListItem.fragmentFree_of_mem_splice {whole : α → Prop}
    (free : ∀ value, Checked.faults (inside value) = [] → whole (inside value))
    (entry : ListItem α) (spliced : ∀ other ∈ entry.splice inside, other.faults = [])
    {other : ListItem α} (member : other ∈ entry.splice inside) : other.FragmentFree whole := by
  have below (sound : ∀ lower ∈ entry.inner, ∀ other ∈ lower.splice inside, other.faults = []) :
      ∀ lower ∈ entry.inner, ∀ other ∈ lower.splice inside, other.FragmentFree whole := by
    intro lower inner other place
    have smaller := ListItem.sizeOf_lt_of_mem_inner inner
    exact lower.fragmentFree_of_mem_splice free (sound lower inner) place
  cases entry with
  | item value =>
    rw [ListItem.splice, List.forall_mem_singleton] at spliced
    rw [ListItem.splice, List.mem_singleton] at member
    exact member ▸ .item (free value spliced)
  | template reference =>
    rw [ListItem.splice, List.mem_singleton] at member
    exact member ▸ .template reference
  | foreignFragment kind size =>
    rw [ListItem.splice, List.forall_mem_singleton] at spliced
    cases spliced
  | fragment items =>
    rw [ListItem.splice, spliceItems_eq_flatMap] at spliced member
    obtain ⟨lower, inner, place⟩ := List.mem_flatMap.1 member
    exact below (List.forall_mem_flatMap.1 spliced) lower inner other place
  | block branches =>
    rw [ListItem.splice, List.forall_mem_singleton, ListItem.faults_eq_nil_iff,
      ListItem.inner_splice, List.forall_mem_flatMap] at spliced
    rw [ListItem.splice, List.mem_singleton] at member
    rw [member, ListItem.fragmentFree_block_iff, ListItem.inner_splice, List.forall_mem_flatMap]
    exact below spliced.2
termination_by sizeOf entry

theorem fragmentFree_spliceItems {whole : α → Prop}
    (free : ∀ value, Checked.faults (inside value) = [] → whole (inside value)) {name : String}
    {entries : List (ListItem α)} (spliced : fieldFaults name (spliceItems inside entries) = []) :
    ∀ entry ∈ spliceItems inside entries, entry.FragmentFree whole := by
  rw [fieldFaults_eq_nil_iff, spliceItems_eq_flatMap, List.forall_mem_flatMap] at spliced
  rw [spliceItems_eq_flatMap, List.forall_mem_flatMap]
  exact fun entry member _ => entry.fragmentFree_of_mem_splice free (spliced entry member)

end Lists

/-! ## Jobs and stages -/

/-- The job with its fragments replaced by their items. -/
def Job.splice (j : Job) : Job :=
  { j with variableItems := spliceItems id j.variableItems, steps := spliceItems id j.steps }

theorem Job.fields_splice (j : Job) : j.splice.fields = j.fields := by
  simp only [Job.fields, Job.splice, Fields.list, Fields.ownList,
    listNodes_spliceItems id fun _ => rfl]

theorem Job.faults_eq_nil_of_splice {j : Job} (spliced : j.splice.faults = []) :
    j.faults = [] := by
  simp only [Job.faults, Job.splice, List.append_eq_nil_iff] at spliced ⊢
  obtain ⟨⟨⟨⟨name, steps⟩, pool⟩, variableItems⟩, stepItems⟩ := spliced
  exact ⟨⟨⟨⟨name, emptyFault_of_splice steps⟩, pool⟩,
    fieldFaults_eq_nil_of_splice (fun _ => id) variableItems⟩,
    fieldFaults_eq_nil_of_splice (fun _ => id) stepItems⟩

theorem Job.fragmentFree_splice {j : Job} (spliced : j.splice.faults = []) :
    j.splice.FragmentFree := by
  simp only [Job.faults, List.append_eq_nil_iff] at spliced
  exact ⟨fragmentFree_spliceItems (fun _ _ => trivial) spliced.1.2,
    fragmentFree_spliceItems (fun _ _ => trivial) spliced.2⟩

/-- The stage with its fragments, and those of its jobs, replaced by their items. -/
def Stage.splice (s : Stage) : Stage :=
  { s with
    variableItems := spliceItems id s.variableItems
    jobs := spliceItems Job.splice s.jobs }

theorem Stage.fields_splice (s : Stage) : s.splice.fields = s.fields := by
  simp only [Stage.fields, Stage.splice, Fields.list, Fields.ownList,
    listNodes_spliceItems id fun _ => rfl,
    listNodes_spliceItems Job.splice Job.fields_splice]

theorem Stage.faults_eq_nil_of_splice {s : Stage} (spliced : s.splice.faults = []) :
    s.faults = [] := by
  simp only [Stage.faults, Stage.splice, List.append_eq_nil_iff] at spliced ⊢
  obtain ⟨⟨⟨⟨name, jobs⟩, pool⟩, variableItems⟩, jobItems⟩ := spliced
  exact ⟨⟨⟨⟨name, emptyFault_of_splice jobs⟩, pool⟩,
    fieldFaults_eq_nil_of_splice (fun _ => id) variableItems⟩,
    fieldFaults_eq_nil_of_splice (fun _ => Job.faults_eq_nil_of_splice) jobItems⟩

theorem Stage.fragmentFree_splice {s : Stage} (spliced : s.splice.faults = []) :
    s.splice.FragmentFree := by
  simp only [Stage.faults, List.append_eq_nil_iff] at spliced
  exact ⟨fragmentFree_spliceItems (fun _ _ => trivial) spliced.1.2,
    fragmentFree_spliceItems (fun _ => Job.fragmentFree_splice) spliced.2⟩

/-! ## Documents -/

def Preamble.splice (p : Preamble) : Preamble :=
  { p with variableItems := spliceItems id p.variableItems }

def TemplateBody.splice : TemplateBody → TemplateBody
  | .steps items => .steps (spliceItems id items)
  | .jobs items => .jobs (spliceItems Job.splice items)
  | .stages items => .stages (spliceItems Stage.splice items)
  | .variableItems items => .variableItems (spliceItems id items)

/-- The document with every fragment replaced in place by its items, at any depth. -/
def Document.splice : Document → Document
  | .singleStage preamble jobs => .singleStage preamble.splice (spliceItems Job.splice jobs)
  | .multiStage preamble stages => .multiStage preamble.splice (spliceItems Stage.splice stages)
  | .template parameters body => .template parameters body.splice

theorem Preamble.fields_splice (p : Preamble) : p.splice.fields = p.fields := by
  simp only [Preamble.fields, Preamble.splice, Fields.list,
    listNodes_spliceItems id fun _ => rfl]

theorem Preamble.faults_eq_nil_of_splice {p : Preamble} (spliced : p.splice.faults = []) :
    p.faults = [] := by
  simp only [Preamble.faults, Preamble.splice, List.append_eq_nil_iff] at spliced ⊢
  exact ⟨⟨spliced.1.1, fieldFaults_eq_nil_of_splice (fun _ => id) spliced.1.2⟩, spliced.2⟩

theorem Preamble.hasNoFragment_splice {p : Preamble} (spliced : p.splice.faults = []) :
    HasNoFragment p.splice.variableItems := by
  simp only [Preamble.faults, List.append_eq_nil_iff] at spliced
  exact fragmentFree_spliceItems (fun _ _ => trivial) spliced.1.2

theorem TemplateBody.fields_splice (body : TemplateBody) : body.splice.fields = body.fields := by
  cases body <;>
    simp only [TemplateBody.splice, TemplateBody.fields, Fields.ownList,
      listNodes_spliceItems id fun _ => rfl,
      listNodes_spliceItems Job.splice Job.fields_splice,
      listNodes_spliceItems Stage.splice Stage.fields_splice]

theorem TemplateBody.faults_eq_nil_of_splice {body : TemplateBody}
    (spliced : body.splice.faults = []) : body.faults = [] := by
  cases body with
  | steps items => exact fieldFaults_eq_nil_of_splice (fun _ => id) spliced
  | jobs items => exact fieldFaults_eq_nil_of_splice (fun _ => Job.faults_eq_nil_of_splice) spliced
  | stages items =>
    exact fieldFaults_eq_nil_of_splice (fun _ => Stage.faults_eq_nil_of_splice) spliced
  | variableItems items => exact fieldFaults_eq_nil_of_splice (fun _ => id) spliced

theorem TemplateBody.fragmentFree_splice {body : TemplateBody}
    (spliced : body.splice.faults = []) : body.splice.FragmentFree := by
  cases body with
  | steps items => exact fragmentFree_spliceItems (fun _ _ => trivial) spliced
  | jobs items => exact fragmentFree_spliceItems (fun _ => Job.fragmentFree_splice) spliced
  | stages items => exact fragmentFree_spliceItems (fun _ => Stage.fragmentFree_splice) spliced
  | variableItems items => exact fragmentFree_spliceItems (fun _ _ => trivial) spliced

namespace Document

/-- **Fragments leave no trace in what is written.** -/
theorem sections_splice (d : Document) : d.splice.sections = d.sections := by
  cases d with
  | singleStage preamble jobs =>
    simp only [splice, sections, Preamble.fields_splice, Fields.ownList,
      listNodes_spliceItems Job.splice Job.fields_splice]
  | multiStage preamble stages =>
    simp only [splice, sections, Preamble.fields_splice, Fields.ownList,
      listNodes_spliceItems Stage.splice Stage.fields_splice]
  | template parameters body =>
    simp only [splice, sections, TemplateBody.fields_splice]

theorem faults_eq_nil_of_splice {d : Document} (spliced : d.splice.faults = []) :
    d.faults = [] := by
  cases d with
  | singleStage preamble jobs =>
    simp only [Document.faults, splice, List.append_eq_nil_iff] at spliced ⊢
    obtain ⟨⟨listed, above⟩, jobItems⟩ := spliced
    exact ⟨⟨emptyFault_of_splice listed, Preamble.faults_eq_nil_of_splice above⟩,
      fieldFaults_eq_nil_of_splice (fun _ => Job.faults_eq_nil_of_splice) jobItems⟩
  | multiStage preamble stages =>
    simp only [Document.faults, splice, List.append_eq_nil_iff] at spliced ⊢
    obtain ⟨⟨listed, above⟩, stageItems⟩ := spliced
    exact ⟨⟨emptyFault_of_splice listed, Preamble.faults_eq_nil_of_splice above⟩,
      fieldFaults_eq_nil_of_splice (fun _ => Stage.faults_eq_nil_of_splice) stageItems⟩
  | template parameters body =>
    simp only [Document.faults, splice, List.append_eq_nil_iff] at spliced ⊢
    exact ⟨spliced.1, TemplateBody.faults_eq_nil_of_splice spliced.2⟩

theorem fragmentFree_splice {d : Document} (spliced : d.splice.faults = []) :
    d.splice.FragmentFree := by
  cases d with
  | singleStage preamble jobs =>
    simp only [Document.faults, splice, List.append_eq_nil_iff] at spliced
    exact ⟨Preamble.hasNoFragment_splice spliced.1.2,
      fragmentFree_spliceItems (fun _ => Job.fragmentFree_splice) spliced.2⟩
  | multiStage preamble stages =>
    simp only [Document.faults, splice, List.append_eq_nil_iff] at spliced
    exact ⟨Preamble.hasNoFragment_splice spliced.1.2,
      fragmentFree_spliceItems (fun _ => Stage.fragmentFree_splice) spliced.2⟩
  | template parameters body =>
    simp only [Document.faults, splice, List.append_eq_nil_iff] at spliced
    exact ⟨List.forall_mem_nil _, TemplateBody.fragmentFree_splice spliced.2⟩

/-- **Fragments are transparent.**  Where the spliced document has a text, no fragment is left in
it, and the document has the same text. -/
theorem toYaml_splice {config : SerializerConfig} {d : Document} {text : String}
    (written : d.splice.toYaml config = .ok text) :
    d.splice.FragmentFree ∧ d.toYaml config = .ok text := by
  obtain ⟨sound, same⟩ := toYaml_eq_ok_iff.1 written
  rw [sections_splice] at same
  exact ⟨fragmentFree_splice sound, toYaml_eq_ok_iff.2 ⟨faults_eq_nil_of_splice sound, same⟩⟩

/-- A pipeline with a fragment of jobs, and in its job a block with a fragment inside of another. -/
def nestedFragments : Document :=
  .singleStage (.bare [])
    [.fragment [.item {
      name := "Build"
      steps := [.fragment [.fragment [],
        .block ⟨⟨"a"⟩, [.fragment [.item (Step.task "Test")]], [], none⟩]] }]]

theorem toYaml_splice_nestedFragments :
    nestedFragments.splice.toYaml {} = .ok
        "jobs:\n- job: Build\n  steps:\n  - $\x7b\x7b if a \x7d\x7d:\n    - task: Test\n" ∧
      nestedFragments.splice.FragmentFree ∧ nestedFragments.toYaml {} = .ok
        "jobs:\n- job: Build\n  steps:\n  - $\x7b\x7b if a \x7d\x7d:\n    - task: Test\n" := by
  have written : nestedFragments.splice.toYaml {} = .ok
      "jobs:\n- job: Build\n  steps:\n  - $\x7b\x7b if a \x7d\x7d:\n    - task: Test\n" :=
    toYaml_eq_ok_iff.2 ⟨rfl, by decide⟩
  exact ⟨written, toYaml_splice written⟩

end Document

end AzurePipelines
