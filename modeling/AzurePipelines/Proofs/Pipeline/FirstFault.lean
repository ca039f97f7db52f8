import AzurePipelines.Proofs.Pipeline.Validation
import AzurePipelines.Proofs.Pipeline.Visits
import Mathlib

/-!
# The first fault is where the path leads

A `Rule` is what an error says of a place, and which of the two kinds of errors says it.
`TreePlace.Breaks` gives the rules that a place breaks by itself, in the words of their messages.
If a document has no text, then the path of its fault, read as text from the document down, leads to
one place; the message is that of a rule that this place breaks, and every place that is visited
before breaks none (`Document.exists_first_broken_of_toYaml_eq_error`).
-/

namespace AzurePipelines

/-! ## Broken rules -/

/-- A rule for documents, as it is stated where it is broken. -/
inductive Rule where
  /-- What a node must have, or must not have. -/
  | schema (text : String)
  /-- What a node must not be. -/
  | support (text : String)
deriving DecidableEq

namespace Rule

/-- The message about a place that breaks the rule. -/
def report (path : String) : Rule → String
  | schema text => "schema violation at '" ++ path ++ "': " ++ text
  | support text => "unsupported item at '" ++ path ++ "': " ++ text

def isSupport : Rule → Bool
  | schema _ => false
  | support _ => true

end Rule

/-- The text of the action is blank. -/
def StepAction.Breaks : StepAction → Rule → Prop
  | .task name, rule => rule = .schema "task name is empty" ∧ ¬Text.IsFilled name
  | .script s, rule | .bash s, rule =>
    rule = .schema "script body is empty" ∧ ¬Text.IsFilled s.contents
  | .pwsh s, rule | .powershell s, rule =>
    rule = .schema "script body is empty" ∧ ¬Text.IsFilled s.contents
  | .checkout c, rule => rule = .schema "checkout repository is empty" ∧
    ∃ name, c.source = .repository name ∧ ¬Text.IsFilled name
  | .download d, rule => rule = .schema "download source is empty" ∧ ¬Text.IsFilled d.source
  | .publish p, rule => rule = .schema "publish path is empty" ∧ ¬Text.IsFilled p.path

/-- The action breaks its rule, or has inputs but takes none. -/
def Step.Breaks (s : Step) (rule : Rule) : Prop :=
  s.action.Breaks rule ∨
    rule = .schema ("inputs are only valid on task steps, not '" ++ s.action.key ++ "'") ∧
      s.inputs.isEmpty = false ∧ s.action.isTask = false

def Variable.Breaks : Variable → Rule → Prop
  | .value name _ _, rule => rule = .schema "variable name is empty" ∧ ¬Text.IsFilled name
  | .group name, rule => rule = .schema "variable group name is empty" ∧ ¬Text.IsFilled name

def Job.Breaks (j : Job) (rule : Rule) : Prop :=
  rule = .schema "job name is empty" ∧ ¬Text.IsFilled j.name ∨
    rule = .schema ("job '" ++ j.name ++ "' has no steps") ∧ j.steps = []

def Stage.Breaks (s : Stage) (rule : Rule) : Prop :=
  rule = .schema "stage name is empty" ∧ ¬Text.IsFilled s.name ∨
    rule = .schema ("stage '" ++ s.name ++ "' has no jobs") ∧ s.jobs = []

def Pool.Breaks : Pool → Rule → Prop
  | .named name, rule => rule = .schema "pool name is empty" ∧ ¬Text.IsFilled name
  | .hosted name vmImage _, rule =>
    rule = .schema "pool has neither a name nor a vmImage" ∧ name = none ∧ vmImage = none

/-- An item breaks a rule of its own, a reference has no path, or a fragment is of another kind than
its list. -/
def ListItem.Breaks {α : Type} (kind : ItemKind) (breaks : α → Rule → Prop) :
    ListItem α → Rule → Prop
  | .item value, rule => breaks value rule
  | .template reference, rule =>
    rule = .schema "template path is empty" ∧ ¬Text.IsFilled reference.path
  | .foreignFragment other _, rule => rule = .support
    ("a " ++ other.name ++ " fragment cannot be placed in a " ++ kind.listKey ++ " list")
  | .block _, _ | .fragment _, _ => False

def TreeNode.Breaks : TreeNode → Rule → Prop
  | .document _, _ => False
  | .schedule s, rule => rule = .schema "schedule cron expression is empty" ∧ ¬Text.IsFilled s.cron
  | .parameter p, rule => rule = .schema "parameter name is empty" ∧ ¬Text.IsFilled p.name
  | .pool p, rule => p.Breaks rule
  | .variableEntry entry, rule => entry.Breaks .variable Variable.Breaks rule
  | .stepEntry entry, rule => entry.Breaks .step Step.Breaks rule
  | .jobEntry entry, rule => entry.Breaks .job Job.Breaks rule
  | .stageEntry entry, rule => entry.Breaks .stage Stage.Breaks rule

namespace TreePlace

/-- The rules that a place breaks, apart from the places below it.  The lists of a pipeline are
places that it is asked for, so that the rule of a pipeline is the rule of these lists. -/
def Breaks : TreePlace → Rule → Prop
  | node lower, rule => lower.Breaks rule
  | jobEntries entries, rule => rule = .schema "pipeline has no jobs" ∧ entries = []
  | stageEntries entries, rule => rule = .schema "pipeline has no stages" ∧ entries = []
  | schedules _, _ | parameters _, _ | variableEntries _, _ | stepEntries _, _ => False

/-- The place itself breaks no rule. -/
def IsSound (place : TreePlace) : Prop := ∀ rule, ¬place.Breaks rule

end TreePlace

/-! ## Faults of a place itself -/

/-- The rule that a fault is against. -/
def Fault.rule (f : Fault) : Rule :=
  if f.isUnsupported then .support f.cause.message else .schema f.cause.message

/-- A fault is reported as its rule is. -/
theorem Fault.message_eq_report (f : Fault) :
    f.message = f.rule.report (TreePath.text f.path) ∧ f.isUnsupported = f.rule.isSupport := by
  rw [message, rule]
  cases f.isUnsupported with
  | true => exact ⟨rfl, rfl⟩
  | false => exact ⟨rfl, rfl⟩

/-- Every fault is one of the node itself, against a rule that the node breaks, and there is one if
the node breaks any. -/
structure Blames (faults : List Fault) (breaks : Rule → Prop) : Prop where
  broken : ∀ fault ∈ faults, fault.path = [] ∧ breaks fault.rule
  complete : ∀ rule, breaks rule → faults ≠ []

namespace Blames

variable {faults others : List Fault} {breaks alsoBreaks : Rule → Prop}

theorem none (sound : ∀ rule, ¬breaks rule) : Blames [] breaks :=
  ⟨List.forall_mem_nil _, fun rule broken => absurd broken (sound rule)⟩

/-- A single fault, if there is one, where a single rule can be broken. -/
theorem ite {cause : Cause} {condition broken : Prop} [Decidable condition]
    (exact : condition ↔ broken) :
    Blames (if condition then [.here cause] else [])
      fun rule => rule = (Fault.here cause).rule ∧ broken := by
  split
  · rename_i holds
    exact ⟨List.forall_mem_singleton.2 ⟨rfl, rfl, exact.1 holds⟩, fun _ _ => List.cons_ne_nil _ _⟩
  · rename_i fails
    exact none fun _ broken => fails (exact.2 broken.2)

theorem required (what : RequiredText) (text : String) : Blames (required what text)
    fun rule => rule = .schema (what.name ++ " is empty") ∧ ¬Text.IsFilled text := by
  have exact : Text.allBlank text.toList = true ↔ ¬Text.IsFilled text := by
    rw [← required_eq_nil_iff what text, AzurePipelines.required]
    split <;> simp [*]
  exact ite exact

theorem congr (blames : Blames faults breaks) (same : ∀ rule, breaks rule ↔ alsoBreaks rule) :
    Blames faults alsoBreaks := by
  obtain rfl : breaks = alsoBreaks := funext fun rule => propext (same rule)
  exact blames

theorem append (first : Blames faults breaks) (second : Blames others alsoBreaks) :
    Blames (faults ++ others) fun rule => breaks rule ∨ alsoBreaks rule := by
  constructor
  · intro fault member
    cases List.mem_append.1 member with
    | inl member => exact (first.broken fault member).imp_right .inl
    | inr member => exact (second.broken fault member).imp_right .inr
  · intro rule broken nothing
    obtain ⟨noFaults, noOthers⟩ := List.append_eq_nil_iff.1 nothing
    cases broken with
    | inl broken => exact first.complete rule broken noFaults
    | inr broken => exact second.complete rule broken noOthers

end Blames

theorem StepAction.blames_faults (action : StepAction) : Blames action.faults action.Breaks := by
  cases action with
  | checkout c =>
    obtain ⟨source, _⟩ := c
    cases source with
    | repository name =>
      apply (Blames.required .checkoutRepository name).congr
      simp [Breaks, RequiredText.name]
    | selfRepository => exact .none (by simp [Breaks])
    | nothing => exact .none (by simp [Breaks])
  | _ => exact .required _ _

theorem Step.blames_faults (s : Step) : Blames s.faults s.Breaks := by
  rw [faults, ← ite_not]
  exact s.action.blames_faults.append (.ite (by simp))

theorem Variable.blames_faults (v : Variable) : Blames v.faults v.Breaks := by
  cases v <;> exact .required _ _

theorem Pool.blames_faults (p : Pool) : Blames p.faults p.Breaks := by
  cases p with
  | named name => exact .required _ _
  | hosted name vmImage demands => exact .ite (by cases name <;> cases vmImage <;> simp)

/-- The faults of a job itself. -/
def Job.ownFaults (j : Job) : List Fault :=
  required .jobName j.name ++ if j.steps.isEmpty then [.here (.jobWithoutSteps j.name)] else []

theorem Job.blames_ownFaults (j : Job) : Blames j.ownFaults j.Breaks :=
  (Blames.required .jobName j.name).append (.ite List.isEmpty_iff)

/-- The faults of a stage itself. -/
def Stage.ownFaults (s : Stage) : List Fault :=
  required .stageName s.name ++ if s.jobs.isEmpty then [.here (.stageWithoutJobs s.name)] else []

theorem Stage.blames_ownFaults (s : Stage) : Blames s.ownFaults s.Breaks :=
  (Blames.required .stageName s.name).append (.ite List.isEmpty_iff)

/-- The faults of an entry itself, given those of items. -/
def ListItem.ownFaults {α : Type} [Checked α] (own : α → List Fault) : ListItem α → List Fault
  | .item value => own value
  | .template reference => required .templatePath reference.path
  | .foreignFragment kind _ => [.here (.foreignFragment kind (Listed.kind α))]
  | .block _ | .fragment _ => []

theorem ListItem.blames_ownFaults {α : Type} [Checked α] {own : α → List Fault}
    {breaks : α → Rule → Prop} (item : ∀ value, Blames (own value) (breaks value))
    (entry : ListItem α) :
    Blames (entry.ownFaults own) (entry.Breaks (Listed.kind α) breaks) := by
  cases entry with
  | item value => exact item value
  | template reference => exact .required _ _
  | foreignFragment kind size =>
    exact ⟨List.forall_mem_singleton.2 ⟨rfl, rfl⟩, fun _ _ => List.cons_ne_nil _ _⟩
  | block _ => exact .none fun _ => id
  | fragment _ => exact .none fun _ => id

/-! ## Faults below a place -/

namespace TreePlace

/-- All faults of a place and the places below it. -/
def faults : TreePlace → List Fault
  | node (.document d) => d.faults
  | node (.schedule s) => s.faults
  | node (.parameter p) => p.faults
  | node (.pool p) => p.faults
  | node (.variableEntry entry) => entry.faults
  | node (.stepEntry entry) => entry.faults
  | node (.jobEntry entry) => entry.faults
  | node (.stageEntry entry) => entry.faults
  | schedules values => valuesFaults Schedule.faults 0 values
  | parameters values => valuesFaults DeclaredParameter.faults 0 values
  | variableEntries entries => listFaults .index 0 entries
  | stepEntries entries => listFaults .index 0 entries
  | jobEntries entries => listFaults .index 0 entries
  | stageEntries entries => listFaults .index 0 entries

end TreePlace

/-- The faults of the places that are one step away. -/
def edgeFaults (edges : List TreeEdge) : List Fault :=
  edges.flatMap fun edge => below edge.1 edge.2.faults

theorem edgeFaults_append (edges others : List TreeEdge) :
    edgeFaults (edges ++ others) = edgeFaults edges ++ edgeFaults others := List.flatMap_append

theorem edgeFaults_cons (edge : TreeEdge) (edges : List TreeEdge) :
    edgeFaults (edge :: edges) = below edge.1 edge.2.faults ++ edgeFaults edges := rfl

theorem edgeFaults_poolEdge (pool : Option Pool) :
    edgeFaults (poolEdge pool) = poolFaults pool := by
  cases pool with
  | none => rfl
  | some given => exact List.append_nil _

theorem numbered_cons {β : Type} (step : Nat → PathStep) (node : β → TreeNode) (start : Nat)
    (value : β) (rest : List β) :
    numbered step node start (value :: rest) =
      (step start, .node (node value)) :: numbered step node (start + 1) rest := rfl

theorem edgeFaults_values {β : Type} (node : β → TreeNode) (faults : β → List Fault)
    (nodeFaults : ∀ value, (TreePlace.node (node value)).faults = faults value) (start : Nat)
    (values : List β) :
    edgeFaults (numbered .index node start values) = valuesFaults faults start values := by
  induction values generalizing start with
  | nil => rfl
  | cons value rest ih => rw [numbered_cons, edgeFaults_cons, nodeFaults, ih, valuesFaults]

theorem edgeFaults_entries {α : Type} [Checked α] (node : ListItem α → TreeNode)
    (nodeFaults : ∀ entry, (TreePlace.node (node entry)).faults = entry.faults)
    (step : Nat → PathStep) (start : Nat) (entries : List (ListItem α)) :
    edgeFaults (numbered step node start entries) = listFaults step start entries := by
  induction entries generalizing start with
  | nil =>
    rw [listFaults]
    rfl
  | cons entry rest ih => rw [numbered_cons, edgeFaults_cons, nodeFaults, ih, listFaults]

theorem edgeFaults_elseIfs {α : Type} [Checked α] {list : List (ListItem α) → TreePlace}
    (entriesFaults : ∀ entries, (list entries).faults = listFaults .index 0 entries) (start : Nat)
    (branches : List (Branch α)) :
    edgeFaults ((branches.zipIdx start).map fun (branch, k) =>
      (.elseIfBranch k, list branch.items)) = branchFaults start branches := by
  induction branches generalizing start with
  | nil =>
    rw [branchFaults]
    rfl
  | cons branch rest ih =>
    obtain ⟨condition, items⟩ := branch
    rw [List.zipIdx_cons, List.map_cons, edgeFaults_cons, ih, entriesFaults, branchFaults,
      Branch.faults]

/-- The faults of an entry are its own, and after them those of the places below it. -/
theorem ListItem.faults_eq {α : Type} [Checked α] {held : α → List TreeEdge}
    {node : ListItem α → TreeNode} {list : List (ListItem α) → TreePlace} {own : α → List Fault}
    (itemFaults : ∀ value, Checked.faults value = own value ++ edgeFaults (held value))
    (nodeFaults : ∀ entry, (TreePlace.node (node entry)).faults = entry.faults)
    (entriesFaults : ∀ entries, (list entries).faults = listFaults .index 0 entries)
    (entry : ListItem α) :
    entry.faults = entry.ownFaults own ++ edgeFaults (entry.edges held node list) := by
  cases entry with
  | item value => rw [ListItem.faults, itemFaults, ownFaults, edges]
  | template reference =>
    rw [ListItem.faults, ownFaults, edges]
    exact (List.append_nil _).symm
  | foreignFragment kind size =>
    rw [ListItem.faults, ownFaults, edges]
    rfl
  | fragment items =>
    rw [ListItem.faults, ownFaults, edges, edgeFaults_entries node nodeFaults, List.nil_append]
  | block branches =>
    obtain ⟨condition, items, elseIfs, elseItems⟩ := branches
    have elses : edgeFaults (elseItems.toList.map fun others => (.elseBranch, list others)) =
        elseFaults elseItems := by
      cases elseItems with
      | none =>
        rw [elseFaults]
        rfl
      | some others =>
        rw [elseFaults, ← entriesFaults]
        exact List.append_nil _
    rw [ListItem.faults, Conditioned.faults, ownFaults, edges, edgeFaults_cons, edgeFaults_append,
      edgeFaults_elseIfs entriesFaults, entriesFaults, elses, List.nil_append, List.append_assoc]

theorem Job.faults_eq (j : Job) : j.faults = j.ownFaults ++ edgeFaults j.edges := by
  rw [faults, ownFaults, edges, edgeFaults_append, edgeFaults_poolEdge, edgeFaults_cons,
    edgeFaults_cons]
  simp [edgeFaults, fieldFaults, TreePlace.faults]

theorem Stage.faults_eq (s : Stage) : s.faults = s.ownFaults ++ edgeFaults s.edges := by
  rw [faults, ownFaults, edges, edgeFaults_append, edgeFaults_poolEdge, edgeFaults_cons,
    edgeFaults_cons]
  simp [edgeFaults, fieldFaults, TreePlace.faults]

theorem Preamble.faults_eq (p : Preamble) : p.faults = edgeFaults p.edges := by
  rw [faults, edges, edgeFaults_cons, edgeFaults_cons, edgeFaults_cons, edgeFaults_poolEdge]
  simp [parametersFaults, fieldFaults, TreePlace.faults]

theorem TemplateBody.faults_eq (body : TemplateBody) :
    body.faults = below body.edge.1 body.edge.2.faults := by
  cases body <;> rfl

/-! ## The first fault -/

/-- Of the places that are visited, the first one that breaks a rule is the one of which the first
fault is reported. -/
inductive ReportsFirst : List TreeVisit → List Fault → Prop
  | sound {visits : List TreeVisit} :
    (∀ visit ∈ visits, visit.2.IsSound) → ReportsFirst visits []
  | broken {before after : List TreeVisit} {place : TreePlace} {fault : Fault}
    {rest : List Fault} :
    (∀ visit ∈ before, visit.2.IsSound) → place.Breaks fault.rule →
    ReportsFirst (before ++ (fault.path, place) :: after) (fault :: rest)

namespace ReportsFirst

variable {visits later : List TreeVisit} {faults others : List Fault}

theorem nil : ReportsFirst [] [] := .sound (List.forall_mem_nil _)

/-- The first place that is visited breaks a rule. -/
theorem head {place : TreePlace} {fault : Fault} {rest : List Fault}
    (breaks : place.Breaks fault.rule) :
    ReportsFirst ((fault.path, place) :: visits) (fault :: rest) := by
  have first : ∀ visit ∈ ([] : List TreeVisit), visit.2.IsSound := List.forall_mem_nil _
  exact .broken first breaks

theorem append (first : ReportsFirst visits faults) (second : ReportsFirst later others) :
    ReportsFirst (visits ++ later) (faults ++ others) := by
  cases first with
  | broken sound breaks =>
    rw [List.append_assoc, List.cons_append, List.cons_append]
    exact .broken sound breaks
  | sound sound =>
    rw [List.nil_append]
    cases second with
    | sound alsoSound => exact .sound (List.forall_mem_append.2 ⟨sound, alsoSound⟩)
    | broken alsoSound breaks =>
      rw [← List.append_assoc]
      exact .broken (List.forall_mem_append.2 ⟨sound, alsoSound⟩) breaks

/-- Seen from a place above, all paths have one step more. -/
theorem below (step : PathStep) (reports : ReportsFirst visits faults) :
    ReportsFirst (visits.map fun visit => (step :: visit.1, visit.2)) (below step faults) := by
  cases reports with
  | sound sound => exact .sound (List.forall_mem_map.2 sound)
  | @broken before after place fault rest sound breaks =>
    have soundBelow : ∀ visit ∈ before.map fun visit : TreeVisit => (step :: visit.1, visit.2),
        visit.2.IsSound := List.forall_mem_map.2 sound
    have breaksBelow : place.Breaks ({ fault with path := step :: fault.path } : Fault).rule :=
      breaks
    rw [List.map_append]
    exact .broken soundBelow breaksBelow

/-- A place whose faults are those that it has itself. -/
theorem singleton {place : TreePlace} (own : Blames faults place.Breaks) :
    ReportsFirst [([], place)] faults := by
  cases faults with
  | nil =>
    refine .sound (List.forall_mem_singleton.2 fun rule breaks => ?_)
    exact own.complete rule breaks rfl
  | cons fault rest =>
    obtain ⟨path, breaks⟩ := own.broken fault List.mem_cons_self
    rw [← path]
    exact head breaks

theorem edgeFaults {edges : List TreeEdge}
    (reports : ∀ edge ∈ edges, ReportsFirst edge.2.visits edge.2.faults) :
    ReportsFirst (edges.flatMap fun edge => edge.2.visits.map fun visit =>
      (edge.1 :: visit.1, visit.2)) (edgeFaults edges) := by
  induction edges with
  | nil => exact nil
  | cons edge edges ih =>
    rw [List.forall_mem_cons] at reports
    exact (reports.1.below edge.1).append (ih reports.2)

/-- A list of a pipeline that must not be empty. -/
theorem list {β : Type} {path : TreePath} (cause : Cause) {items : List β} {place : TreePlace}
    (exact : ∀ rule, place.Breaks rule ↔ rule = (Fault.mk path cause).rule ∧ items = []) :
    ReportsFirst [(path, place)] (if items.isEmpty then [⟨path, cause⟩] else []) := by
  cases items with
  | nil =>
    have breaks : place.Breaks (Fault.mk path cause).rule := (exact _).2 ⟨rfl, rfl⟩
    exact head breaks
  | cons item rest =>
    refine .sound (List.forall_mem_singleton.2 fun rule breaks => ?_)
    cases ((exact rule).1 breaks).2

end ReportsFirst

namespace TreePlace

theorem exists_first_of_entry {α : Type} [Checked α] {held : α → List TreeEdge}
    {wrap : ListItem α → TreeNode} {list : List (ListItem α) → TreePlace} {own : α → List Fault}
    {breaks : α → Rule → Prop}
    (itemFaults : ∀ value, Checked.faults value = own value ++ edgeFaults (held value))
    (itemBreaks : ∀ value, Blames (own value) (breaks value))
    (wrapFaults : ∀ entry, (node (wrap entry)).faults = entry.faults)
    (wrapBreaks : ∀ entry, (node (wrap entry)).Breaks = entry.Breaks (Listed.kind α) breaks)
    (entriesFaults : ∀ entries, (list entries).faults = listFaults .index 0 entries)
    (entry : ListItem α) :
    ∃ first : List Fault, entry.faults = first ++ edgeFaults (entry.edges held wrap list) ∧
      ReportsFirst [([], node (wrap entry))] first := by
  refine ⟨entry.ownFaults own, entry.faults_eq itemFaults wrapFaults entriesFaults, ?_⟩
  apply ReportsFirst.singleton
  rw [wrapBreaks]
  exact entry.blames_ownFaults itemBreaks

/-- First come the faults of the places that are looked at first, then those of all places below. -/
theorem exists_first (place : TreePlace) : ∃ first : List Fault,
    place.faults = first ++ edgeFaults place.edges ∧ ReportsFirst place.own first := by
  have leaf (faults : List Fault) : faults = faults ++ edgeFaults [] := (List.append_nil _).symm
  match place with
  | node (.document (.singleStage preamble jobs)) =>
    refine ⟨_, ?_, .list .pipelineWithoutJobs fun _ => Iff.rfl⟩
    rw [faults, Document.faults, preamble.faults_eq, List.append_assoc, edges, Document.edges,
      edgeFaults_append]
    congr 2
    exact leaf _
  | node (.document (.multiStage preamble stages)) =>
    refine ⟨_, ?_, .list .pipelineWithoutStages fun _ => Iff.rfl⟩
    rw [faults, Document.faults, preamble.faults_eq, List.append_assoc, edges, Document.edges,
      edgeFaults_append]
    congr 2
    exact leaf _
  | node (.document (.template declared body)) =>
    refine ⟨[], ?_, .nil⟩
    rw [faults, Document.faults, body.faults_eq, edges, Document.edges, edgeFaults_cons,
      edgeFaults_cons, ← leaf]
    rfl
  | node (.schedule s) => exact ⟨s.faults, leaf _, .singleton (.required _ _)⟩
  | node (.parameter p) => exact ⟨p.faults, leaf _, .singleton (.required _ _)⟩
  | node (.pool p) => exact ⟨p.faults, leaf _, .singleton p.blames_faults⟩
  | node (.variableEntry entry) =>
    exact exists_first_of_entry (fun v => leaf v.faults) Variable.blames_faults
      (fun _ => rfl) (fun _ => rfl) (fun _ => rfl) entry
  | node (.stepEntry entry) =>
    exact exists_first_of_entry (fun s => leaf s.faults) Step.blames_faults
      (fun _ => rfl) (fun _ => rfl) (fun _ => rfl) entry
  | node (.jobEntry entry) =>
    exact exists_first_of_entry Job.faults_eq Job.blames_ownFaults
      (fun _ => rfl) (fun _ => rfl) (fun _ => rfl) entry
  | node (.stageEntry entry) =>
    exact exists_first_of_entry Stage.faults_eq Stage.blames_ownFaults
      (fun _ => rfl) (fun _ => rfl) (fun _ => rfl) entry
  | schedules values =>
    exact ⟨[], (edgeFaults_values .schedule Schedule.faults (fun _ => rfl) 0 values).symm, .nil⟩
  | parameters values =>
    exact ⟨[], (edgeFaults_values .parameter DeclaredParameter.faults (fun _ => rfl) 0 values).symm,
      .nil⟩
  | variableEntries entries =>
    exact ⟨[], (edgeFaults_entries .variableEntry (fun _ => rfl) .index 0 entries).symm, .nil⟩
  | stepEntries entries =>
    exact ⟨[], (edgeFaults_entries .stepEntry (fun _ => rfl) .index 0 entries).symm, .nil⟩
  | jobEntries entries =>
    exact ⟨[], (edgeFaults_entries .jobEntry (fun _ => rfl) .index 0 entries).symm, .nil⟩
  | stageEntries entries =>
    exact ⟨[], (edgeFaults_entries .stageEntry (fun _ => rfl) .index 0 entries).symm, .nil⟩

/-- Of a place and those below it, the first one that breaks a rule is reported first. -/
theorem reportsFirst (place : TreePlace) : ReportsFirst place.visits place.faults := by
  -- What is reported of the places below is what they report themselves, one step further down.
  obtain ⟨first, faults_eq, own⟩ := place.exists_first
  rw [visits_eq, faults_eq]
  exact own.append (.edgeFaults fun edge _ => reportsFirst edge.2)
termination_by sizeOf place
decreasing_by exact sizeOf_lt_of_mem_edges (by assumption)

end TreePlace

/-- **A document without a text has a first broken rule, where the path of its fault leads.**  The
message and the kind of the error are those of this rule. -/
theorem Document.exists_first_broken_of_toYaml_eq_error {d : Document} {config : SerializerConfig}
    {fault : Fault} (failed : d.toYaml config = .error fault) :
    ∃ before place after rule, d.visits = before ++ (fault.path, place) :: after ∧
      d.at? (TreePath.text fault.path) = some place ∧ place.Breaks rule ∧
      fault.message = rule.report (TreePath.text fault.path) ∧
      fault.isUnsupported = rule.isSupport ∧
      ∀ visit ∈ before, ∀ other, ¬visit.2.Breaks other := by
  have reports : ReportsFirst d.visits d.faults := (TreePlace.node (.document d)).reportsFirst
  rw [toYaml_eq_error_iff] at failed
  generalize visited : d.visits = visits at reports
  cases faults : d.faults with
  | nil =>
    rw [faults] at failed
    cases failed
  | cons first rest =>
    rw [faults] at failed reports
    obtain rfl := Option.some.inj failed
    obtain ⟨message, isSupport⟩ := first.message_eq_report
    cases reports with
    | @broken before after place _ _ sound breaks =>
      refine ⟨before, place, after, first.rule, rfl, at?_of_mem_visits ?_, breaks, message,
        isSupport, sound⟩
      rw [visited]
      exact List.mem_append_right _ List.mem_cons_self

/-- A pipeline with a task without a name, in a fragment in a branch of a block of steps, of a job
in a fragment. -/
def namelessTask : Document :=
  .singleStage ⟨none, none, none, [], [], [], none⟩
    [.fragment [.item {
      name := "Build"
      steps := [.item (Step.task "Restore"),
        .block ⟨⟨"a"⟩, [], [⟨⟨"b"⟩, [.template ⟨"test.yml", .empty⟩,
          .fragment [.item (Step.task " ")]]⟩], none⟩] }]]

/-- The path to the task of `namelessTask`. -/
def namelessTaskPath : TreePath :=
  [.field "jobs", .index 0, .fragmentEntry 0, .field "steps", .index 1, .elseIfBranch 0, .index 1,
    .fragmentEntry 0]

theorem Document.exists_first_broken_namelessTask : ∃ fault,
    namelessTask.toYaml {} = .error fault ∧ fault.path = namelessTaskPath ∧
      fault.message = "schema violation at " ++
        "'jobs[0].fragment[0].steps[1].elseif[0][1].fragment[0]': task name is empty" ∧
      ∃ before place after rule, namelessTask.visits = before ++ (fault.path, place) :: after ∧
        namelessTask.at? (TreePath.text fault.path) = some place ∧ place.Breaks rule ∧
        fault.message = rule.report (TreePath.text fault.path) ∧
        fault.isUnsupported = rule.isSupport ∧
        ∀ visit ∈ before, ∀ other, ¬visit.2.Breaks other := by
  have failed : namelessTask.toYaml {} = .error ⟨namelessTaskPath, .blank .taskName⟩ :=
    toYaml_eq_error_iff.2 (by decide)
  exact ⟨_, failed, rfl, by decide, exists_first_broken_of_toYaml_eq_error failed⟩

end AzurePipelines
