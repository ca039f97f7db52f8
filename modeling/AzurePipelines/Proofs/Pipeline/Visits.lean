import AzurePipelines.Proofs.Pipeline.Places
import Mathlib

/-!
# Visits to places

`Document.visits` are the places of a document in the order in which they are looked at: a node
before the places below it, a pipeline's own list before all that it holds.  Every place that is
visited is found at the text of its path (`Document.at?_of_mem_visits`), and every node of the
document is visited (`Document.exists_mem_visits`).
-/

namespace AzurePipelines

/-! ## The order of visits -/

namespace TreePlace

/-- What is looked at before the places below: of a pipeline its list of jobs or stages, of any
other node the node. -/
def own : TreePlace → List TreeVisit
  | node (.document (.singleStage _ jobs)) => [([.field "jobs"], jobEntries jobs)]
  | node (.document (.multiStage _ stages)) => [([.field "stages"], stageEntries stages)]
  | node (.document (.template _ _)) => []
  | node lower => [([], node lower)]
  | schedules _ | parameters _ | variableEntries _ | stepEntries _ | jobEntries _
  | stageEntries _ => []

/-- The places that are visited from a place on, each with the path to it, in the order in which
they are visited. -/
def visits (place : TreePlace) : List TreeVisit :=
  place.own ++ place.edges.attach.flatMap fun edge =>
    (visits edge.1.2).map fun visit => (edge.1.1 :: visit.1, visit.2)
termination_by sizeOf place
decreasing_by exact sizeOf_lt_of_mem_edges edge.2

theorem visits_eq (place : TreePlace) :
    place.visits = place.own ++ place.edges.flatMap fun edge =>
      edge.2.visits.map fun visit => (edge.1 :: visit.1, visit.2) := by
  rw [visits, List.flatMap_subtype (g := fun edge =>
    edge.2.visits.map fun visit => (edge.1 :: visit.1, visit.2)) fun _ _ => rfl,
    List.unattach_attach]

/-- A visit from a place on is to what is looked at first, or goes on from a place below. -/
theorem own_or_edge_of_mem_visits {place target : TreePlace} {path : TreePath}
    (member : (path, target) ∈ place.visits) :
    (path, target) ∈ place.own ∨ ∃ step next rest, path = step :: rest ∧
      (step, next) ∈ place.edges ∧ (rest, target) ∈ next.visits := by
  rw [visits_eq, List.mem_append] at member
  rcases member with first | later
  · exact .inl first
  · obtain ⟨⟨step, next⟩, edge, visit⟩ := List.mem_flatMap.1 later
    obtain ⟨⟨rest, found⟩, below, same⟩ := List.mem_map.1 visit
    obtain ⟨rfl, rfl⟩ := Prod.mk.inj same
    exact .inr ⟨step, next, rest, rfl, edge, below⟩

theorem mem_visits_of_mem_edges {place target lowest : TreePlace} {step : PathStep}
    {rest : TreePath} (edge : (step, target) ∈ place.edges)
    (below : (rest, lowest) ∈ target.visits) : (step :: rest, lowest) ∈ place.visits := by
  rw [visits_eq]
  exact List.mem_append_right _ (List.mem_flatMap.2
    ⟨_, edge, List.mem_map_of_mem (f := fun visit => (step :: visit.1, visit.2)) below⟩)

end TreePlace

/-- The places of a document in the order in which they are visited. -/
def Document.visits (d : Document) : List TreeVisit := (TreePlace.node (.document d)).visits

/-- The list that a document is asked for is one of its fields. -/
theorem Document.edge_of_mem_own {d : Document} {path : TreePath} {target : TreePlace}
    (member : (path, target) ∈ (TreePlace.node (.document d)).own) :
    ∃ step, path = [step] ∧ (step, target) ∈ d.edges := by
  cases d with
  | singleStage preamble jobs =>
    obtain ⟨rfl, rfl⟩ : path = [.field "jobs"] ∧ target = .jobEntries jobs := by
      simpa [TreePlace.own] using member
    exact ⟨_, rfl, List.mem_append_right _ List.mem_cons_self⟩
  | multiStage preamble stages =>
    obtain ⟨rfl, rfl⟩ : path = [.field "stages"] ∧ target = .stageEntries stages := by
      simpa [TreePlace.own] using member
    exact ⟨_, rfl, List.mem_append_right _ List.mem_cons_self⟩
  | template _ _ => cases member

/-! ## Visited places are found -/

namespace TreePlace

/-- What is looked at first is the place itself or directly below it, as the list of a pipeline,
which is looked at before the settings and entered after them. -/
theorem eq_or_edge_of_mem_own {place target : TreePlace} {path : TreePath}
    (member : (path, target) ∈ place.own) :
    path = [] ∧ target = place ∨ ∃ step, path = [step] ∧ (step, target) ∈ place.edges := by
  match place with
  | node (.document _) => exact .inr (Document.edge_of_mem_own member)
  | node (.schedule _) | node (.parameter _) | node (.pool _) | node (.variableEntry _)
  | node (.stepEntry _) | node (.jobEntry _) | node (.stageEntry _) =>
    exact .inl (by simpa [own] using member)
  | schedules _ | parameters _ | variableEntries _ | stepEntries _ | jobEntries _
  | stageEntries _ => cases member

/-- The steps to a visited place lead there, and can be told by their text. -/
theorem foldlM_follow_of_mem_visits {place target : TreePlace} {path : TreePath}
    (member : (path, target) ∈ place.visits) :
    path.foldlM follow place = some target ∧ ∀ step ∈ path, step.IsPlain := by
  rcases own_or_edge_of_mem_visits member with first | ⟨step, next, rest, rfl, edge, below⟩
  · rcases eq_or_edge_of_mem_own first with ⟨rfl, rfl⟩ | ⟨step, rfl, edge⟩
    · exact ⟨rfl, List.forall_mem_nil _⟩
    · rw [List.foldlM_cons, follow_of_mem_edges edge]
      exact ⟨rfl, List.forall_mem_singleton.2 (isPlain_of_mem_edges edge)⟩
  · obtain ⟨leads, plain⟩ := foldlM_follow_of_mem_visits below
    rw [List.foldlM_cons, follow_of_mem_edges edge]
    exact ⟨leads, List.forall_mem_cons.2 ⟨isPlain_of_mem_edges edge, plain⟩⟩
termination_by sizeOf place
decreasing_by exact sizeOf_lt_of_mem_edges edge

end TreePlace

/-- The path to a visited place starts with a field. -/
theorem Document.exists_field_of_mem_visits {d : Document} {path : TreePath} {place : TreePlace}
    (member : (path, place) ∈ d.visits) : ∃ name rest, path = .field name :: rest := by
  rcases TreePlace.own_or_edge_of_mem_visits member with first | ⟨step, _, rest, rfl, edge, _⟩
  · obtain ⟨step, rfl, edge⟩ := edge_of_mem_own first
    obtain ⟨name, rfl⟩ := exists_field_of_mem_edges edge
    exact ⟨name, [], rfl⟩
  · obtain ⟨name, rfl⟩ := exists_field_of_mem_edges edge
    exact ⟨name, rest, rfl⟩

/-- **Every place that is visited is found at the text of its path.** -/
theorem Document.at?_of_mem_visits {d : Document} {path : TreePath} {place : TreePlace}
    (member : (path, place) ∈ d.visits) : d.at? path.text = some place := by
  obtain ⟨leads, plain⟩ := TreePlace.foldlM_follow_of_mem_visits member
  obtain ⟨name, rest, rfl⟩ := exists_field_of_mem_visits member
  rw [at?, TreePath.ofText?_text plain, Option.bind_some, leads]

/-! ## Every node is visited -/

/-- Documents are not below other nodes. -/
theorem TreeNode.ne_document_of_mem_children {upper lower : TreeNode}
    (member : lower ∈ upper.children) (d : Document) : lower ≠ .document d := by
  rintro rfl
  cases upper with
  | document upper =>
    cases upper with
    | singleStage _ _ => simp [children, ofPreamble] at member
    | multiStage _ _ => simp [children, ofPreamble] at member
    | template _ body => cases body <;> simp [children, ofTemplateBody] at member
  | schedule _ => cases member
  | parameter _ => cases member
  | pool _ => cases member
  | variableEntry _ => simp [children] at member
  | stepEntry _ => simp [children] at member
  | jobEntry entry => cases entry <;> simp [children, ofJob] at member
  | stageEntry entry => cases entry <;> simp [children, ofStage] at member

namespace TreePlace

/-- What is visited from a visited place on is visited. -/
theorem mem_visits_trans {place target lowest : TreePlace} {path rest : TreePath}
    (upper : (path, target) ∈ place.visits) (lower : (rest, lowest) ∈ target.visits) :
    (path ++ rest, lowest) ∈ place.visits := by
  rcases own_or_edge_of_mem_visits upper with first | ⟨step, next, path, rfl, edge, below⟩
  · rcases eq_or_edge_of_mem_own first with ⟨rfl, rfl⟩ | ⟨step, rfl, edge⟩
    · exact lower
    · exact mem_visits_of_mem_edges edge lower
  · exact mem_visits_of_mem_edges edge (mem_visits_trans below lower)
termination_by sizeOf place
decreasing_by exact sizeOf_lt_of_mem_edges edge

/-- The node is visited somewhere below the place. -/
def Sees (place : TreePlace) (lower : TreeNode) : Prop := ∃ path, (path, node lower) ∈ place.visits

variable {place target : TreePlace} {step : PathStep} {lower : TreeNode}

theorem Sees.edge (edge : (step, target) ∈ place.edges) (seen : target.Sees lower) :
    place.Sees lower := by
  obtain ⟨path, below⟩ := seen
  exact ⟨_, mem_visits_of_mem_edges edge below⟩

theorem Sees.trans {upper : TreeNode} (seen : place.Sees upper) (below : (node upper).Sees lower) :
    place.Sees lower := by
  obtain ⟨path, visited⟩ := seen
  obtain ⟨rest, visitedBelow⟩ := below
  exact ⟨_, mem_visits_trans visited visitedBelow⟩

/-- A node other than the document is visited itself. -/
theorem Sees.self (inner : ∀ d, lower ≠ .document d) : (node lower).Sees lower := by
  refine ⟨[], ?_⟩
  rw [visits_eq]
  cases lower with
  | document d => exact absurd rfl (inner d)
  | _ => exact List.mem_append_left _ List.mem_cons_self

theorem Sees.numbered {β : Type} {step : Nat → PathStep} {wrap : β → TreeNode} {values : List β}
    (inner : ∀ d, lower ≠ .document d)
    (all : AzurePipelines.numbered step wrap 0 values ⊆ place.edges)
    (member : lower ∈ values.map wrap) : place.Sees lower := by
  obtain ⟨value, inList, rfl⟩ := List.mem_map.1 member
  obtain ⟨i, bound, rfl⟩ := List.getElem_of_mem inList
  have counted : (values[i], i) ∈ values.zipIdx :=
    List.mk_mem_zipIdx_iff_getElem?.2 (List.getElem?_eq_getElem bound)
  have edge : (step i, node (wrap values[i])) ∈ AzurePipelines.numbered step wrap 0 values :=
    List.mem_map.2 ⟨_, counted, rfl⟩
  exact .edge (all edge) (.self inner)

theorem Sees.listed {β : Type} {wrap : β → TreeNode} {values : List β}
    (inner : ∀ d, lower ≠ .document d) (edge : (step, target) ∈ place.edges)
    (all : target.edges = AzurePipelines.numbered .index wrap 0 values)
    (member : lower ∈ values.map wrap) : place.Sees lower := by
  have each : AzurePipelines.numbered .index wrap 0 values ⊆ target.edges := by
    rw [all]
    exact List.Subset.refl _
  exact .edge edge (.numbered inner each member)

theorem sees_of_mem_poolEdge {pool : Option Pool} (inner : ∀ d, lower ≠ .document d)
    (all : poolEdge pool ⊆ place.edges)
    (member : lower ∈ pool.toList.map TreeNode.pool) : place.Sees lower := by
  obtain ⟨given, inList, rfl⟩ := List.mem_map.1 member
  exact .edge (all (List.mem_map_of_mem inList)) (.self inner)

theorem sees_of_mem_ofPreamble {p : Preamble} (inner : ∀ d, lower ≠ .document d)
    (all : p.edges ⊆ place.edges)
    (member : lower ∈ TreeNode.ofPreamble p) : place.Sees lower := by
  simp only [Preamble.edges, List.cons_subset] at all
  simp only [TreeNode.ofPreamble, List.mem_append] at member
  rcases member with ((member | member) | member) | member
  · exact .listed inner all.1 rfl member
  · exact .listed inner all.2.1 rfl member
  · exact .listed inner all.2.2.1 rfl member
  · exact sees_of_mem_poolEdge inner all.2.2.2 member

theorem sees_of_mem_ofJob {j : Job} (inner : ∀ d, lower ≠ .document d)
    (all : j.edges ⊆ place.edges)
    (member : lower ∈ TreeNode.ofJob j) : place.Sees lower := by
  simp only [Job.edges, List.append_subset, List.cons_subset] at all
  simp only [TreeNode.ofJob, List.mem_append] at member
  rcases member with (member | member) | member
  · exact sees_of_mem_poolEdge inner all.1 member
  · exact .listed inner all.2.1 rfl member
  · exact .listed inner all.2.2.1 rfl member

theorem sees_of_mem_ofStage {s : Stage} (inner : ∀ d, lower ≠ .document d)
    (all : s.edges ⊆ place.edges)
    (member : lower ∈ TreeNode.ofStage s) : place.Sees lower := by
  simp only [Stage.edges, List.append_subset, List.cons_subset] at all
  simp only [TreeNode.ofStage, List.mem_append] at member
  rcases member with (member | member) | member
  · exact sees_of_mem_poolEdge inner all.1 member
  · exact .listed inner all.2.1 rfl member
  · exact .listed inner all.2.2.1 rfl member

theorem sees_of_mem_ofTemplateBody {body : TemplateBody} (inner : ∀ d, lower ≠ .document d)
    (edge : body.edge ∈ place.edges)
    (member : lower ∈ TreeNode.ofTemplateBody body) : place.Sees lower := by
  cases body with
  | steps items => exact .listed inner edge rfl member
  | jobs items => exact .listed inner edge rfl member
  | stages items => exact .listed inner edge rfl member
  | variableItems items => exact .listed inner edge rfl member

theorem sees_of_mem_inner {α : Type} (held : α → List TreeEdge) (wrap : ListItem α → TreeNode)
    (list : List (ListItem α) → TreePlace) (inner : ∀ d, lower ≠ .document d)
    (listed : ∀ entries, (list entries).edges = AzurePipelines.numbered .index wrap 0 entries)
    {entry : ListItem α} (all : entry.edges held wrap list ⊆ place.edges)
    (member : lower ∈ entry.inner.map wrap) : place.Sees lower := by
  cases entry with
  | item _ => cases member
  | template _ => cases member
  | foreignFragment _ _ => cases member
  | fragment items => exact .numbered inner all member
  | block branches =>
    obtain ⟨condition, items, elseIfs, elseItems⟩ := branches
    simp only [ListItem.edges, List.cons_subset, List.append_subset] at all
    simp only [ListItem.inner, List.map_append, List.mem_append, List.map_flatMap,
      List.mem_flatMap] at member
    rcases member with member | ⟨branch, inBlock, member⟩ | member
    · exact .listed inner all.1 (listed _) member
    · obtain ⟨k, bound, rfl⟩ := List.getElem_of_mem inBlock
      have counted : (elseIfs[k], k) ∈ elseIfs.zipIdx :=
        List.mk_mem_zipIdx_iff_getElem?.2 (List.getElem?_eq_getElem bound)
      have edge : (.elseIfBranch k, list elseIfs[k].items) ∈ place.edges :=
        all.2.1 (List.mem_map.2 ⟨_, counted, rfl⟩)
      exact .listed inner edge (listed _) member
    · cases elseItems with
      | none => cases member
      | some others => exact .listed inner (all.2.2 List.mem_cons_self) (listed _) member

/-- Whatever node is below a node is seen from there. -/
theorem sees_of_mem_children {upper : TreeNode} (member : lower ∈ upper.children) :
    (node upper).Sees lower := by
  have inner := TreeNode.ne_document_of_mem_children member
  match upper with
  | .document (.singleStage preamble jobs) =>
    rcases List.mem_append.1 member with member | member
    · exact sees_of_mem_ofPreamble inner (List.subset_append_left _ _) member
    · exact .listed inner (List.mem_append_right _ List.mem_cons_self) rfl member
  | .document (.multiStage preamble stages) =>
    rcases List.mem_append.1 member with member | member
    · exact sees_of_mem_ofPreamble inner (List.subset_append_left _ _) member
    · exact .listed inner (List.mem_append_right _ List.mem_cons_self) rfl member
  | .document (.template declared body) =>
    rcases List.mem_append.1 member with member | member
    · exact .listed inner List.mem_cons_self rfl member
    · exact sees_of_mem_ofTemplateBody inner (List.mem_cons_of_mem _ List.mem_cons_self) member
  | .schedule _ => cases member
  | .parameter _ => cases member
  | .pool _ => cases member
  | .jobEntry (.item job) => exact sees_of_mem_ofJob inner (List.Subset.refl _) member
  | .stageEntry (.item stage) => exact sees_of_mem_ofStage inner (List.Subset.refl _) member
  | .variableEntry entry =>
    exact sees_of_mem_inner (fun _ => []) .variableEntry variableEntries inner (fun _ => rfl)
      (List.Subset.refl _) member
  | .stepEntry entry =>
    exact sees_of_mem_inner (fun _ => []) .stepEntry stepEntries inner (fun _ => rfl)
      (List.Subset.refl _) member
  | .jobEntry (.block _) | .jobEntry (.template _) | .jobEntry (.fragment _)
  | .jobEntry (.foreignFragment _ _) =>
    exact sees_of_mem_inner Job.edges .jobEntry jobEntries inner (fun _ => rfl) (List.Subset.refl _)
      member
  | .stageEntry (.block _) | .stageEntry (.template _) | .stageEntry (.fragment _)
  | .stageEntry (.foreignFragment _ _) =>
    exact sees_of_mem_inner Stage.edges .stageEntry stageEntries inner (fun _ => rfl)
      (List.Subset.refl _) member

end TreePlace

/-- **Every node of a document is visited.** -/
theorem Document.exists_mem_visits {d : Document} {lower : TreeNode}
    (reaches : (TreeNode.document d).Reaches lower) (below : lower ≠ .document d) :
    ∃ path, (path, .node lower) ∈ d.visits := by
  induction reaches with
  | refl => exact absurd rfl below
  | @tail upper lower reaches child ih =>
    by_cases top : upper = .document d
    · exact TreePlace.sees_of_mem_children (top ▸ child)
    · exact TreePlace.Sees.trans (ih top) (TreePlace.sees_of_mem_children child)

end AzurePipelines
