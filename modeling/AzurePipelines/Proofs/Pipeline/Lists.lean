import AzurePipelines.Proofs.Pipeline.Records
import Mathlib

/-!
# Lists are recovered from what is written

The branches of a block are written beside each other, between the entries above and below the
block.  Their keys tell where a block starts, which of its branches is which and where it ends, so
that a list without fragments is recovered from its nodes, up to the canonical forms of its items
(`mapItems_eq_of_listNodes_eq`).  All that items have to do for it is to be recovered from their
fields, and to start with a key that is no branch and no template (`Recoverable`).
-/

namespace AzurePipelines

open Yaml (Node)

/-! ## Lists without fragments -/

/-- There is no fragment at any depth of the entry, and its items have no fragments either. -/
inductive ListItem.FragmentFree {α : Type} (whole : α → Prop) : ListItem α → Prop
  | item {value : α} : whole value → FragmentFree whole (.item value)
  | template (reference : TemplateReference) : FragmentFree whole (.template reference)
  | block {branches : Conditioned α} :
    (∀ lower ∈ (ListItem.block branches).inner, lower.FragmentFree whole) →
    FragmentFree whole (.block branches)

theorem ListItem.fragmentFree_block_iff {α : Type} {whole : α → Prop}
    {branches : Conditioned α} :
    (ListItem.block branches).FragmentFree whole ↔
      ∀ lower ∈ (ListItem.block branches).inner, lower.FragmentFree whole := by
  constructor
  · intro free
    cases free with
    | block free => exact free
  · exact .block

/-- The canonical forms of items are recovered from their fields. -/
structure Recoverable {α : Type} [Listed α] (whole : α → Prop) (canonical : α → α) : Prop where
  eq_of_fields : ∀ {a b : α}, whole a → whole b → Listed.fields a = Listed.fields b →
    canonical a = canonical b
  head : ∀ value : α, ∃ key n rest, Listed.fields value = (key, n) :: rest ∧ key ≠ "template" ∧
    ¬IsBranchKey key

/-- The key that the first of the nodes starts with. -/
def firstKey? : List Node → Option String
  | .mapping ((key, _) :: _) :: _ => some key
  | _ => none

/-- The nodes do not start with a further branch of the block above them. -/
def StartsFresh (nodes : List Node) : Prop :=
  firstKey? nodes ≠ some elseKey ∧ ∀ c, firstKey? nodes ≠ some (elseIfKey c)

section Lists

variable {α : Type} [Listed α] {whole : α → Prop} {canonical : α → α}

theorem firstKey?_template (reference : TemplateReference) (rest : List Node) :
    firstKey? ((ListItem.template reference : ListItem α).nodes ++ rest) = some "template" := by
  rw [ListItem.nodes]
  rfl

theorem firstKey?_block (branches : Conditioned α) (rest : List Node) :
    firstKey? ((ListItem.block branches).nodes ++ rest) = some (ifKey branches.condition) := by
  obtain ⟨condition, items, elseIfs, elseItems⟩ := branches
  rw [ListItem.nodes, Conditioned.nodes]
  rfl

/-- An item starts with a key of its own. -/
theorem Recoverable.firstKey?_item (h : Recoverable whole canonical) (value : α)
    (rest : List Node) : ∃ key, firstKey? ((ListItem.item value).nodes ++ rest) = some key ∧
      key ≠ "template" ∧ ¬IsBranchKey key := by
  obtain ⟨key, n, others, shape, notTemplate, notBranch⟩ := h.head value
  refine ⟨key, ?_, notTemplate, notBranch⟩
  rw [ListItem.nodes, shape]
  rfl

/-- What is written of an entry does not go on with the block above it. -/
theorem ListItem.FragmentFree.startsFresh (h : Recoverable whole canonical) {entry : ListItem α}
    (free : entry.FragmentFree whole) (rest : List Node) : StartsFresh (entry.nodes ++ rest) := by
  cases free with
  | @item value _ =>
    obtain ⟨key, first, _, notBranch⟩ := h.firstKey?_item value rest
    rw [StartsFresh, first]
    refine ⟨fun same => ?_, fun c same => ?_⟩
    · rw [Option.some.inj same] at notBranch
      exact notBranch isBranchKey_elseKey
    · rw [Option.some.inj same] at notBranch
      exact notBranch (isBranchKey_elseIfKey c)
  | template reference =>
    rw [StartsFresh, firstKey?_template]
    refine ⟨by decide, fun c same => ?_⟩
    have isBranch := isBranchKey_elseIfKey c
    rw [← Option.some.inj same] at isBranch
    exact absurd isBranch (by decide)
  | @block branches _ =>
    rw [StartsFresh, firstKey?_block]
    exact ⟨fun same => ifKey_ne_elseKey _ (Option.some.inj same),
      fun c same => ifKey_ne_elseIfKey _ c (Option.some.inj same)⟩

theorem startsFresh_listNodes (h : Recoverable whole canonical) {entries : List (ListItem α)}
    (free : ∀ entry ∈ entries, entry.FragmentFree whole) : StartsFresh (listNodes entries) := by
  cases entries with
  | nil =>
    rw [listNodes]
    exact ⟨by decide, fun c same => by cases same⟩
  | cons entry entries =>
    rw [listNodes]
    exact (free entry List.mem_cons_self).startsFresh h _

theorem ListItem.FragmentFree.nodes_ne_nil {entry : ListItem α} (free : entry.FragmentFree whole) :
    entry.nodes ≠ [] := by
  cases free with
  | item _ => simp [ListItem.nodes]
  | template _ => simp [ListItem.nodes]
  | @block branches _ =>
    obtain ⟨condition, items, elseIfs, elseItems⟩ := branches
    simp [ListItem.nodes, Conditioned.nodes]

theorem listNodes_eq_nil_iff_of_fragmentFree {entries : List (ListItem α)}
    (free : ∀ entry ∈ entries, entry.FragmentFree whole) :
    listNodes entries = [] ↔ entries = [] := by
  cases entries with
  | nil => simp [listNodes]
  | cons entry entries =>
    have solid := (free entry List.mem_cons_self).nodes_ne_nil
    simp [listNodes, solid]

/-! ## Recovery -/

/-- Entries that start with different keys are not written alike. -/
theorem nodes_append_ne_of_firstKey? {first second : List Node} {key other : String}
    (firstKey : firstKey? first = some key) (secondKey : firstKey? second = some other)
    (different : key ≠ other) : first ≠ second := by
  rintro rfl
  rw [firstKey] at secondKey
  exact different (Option.some.inj secondKey)

/-- Entries that are written alike are both items, both templates or both blocks. -/
theorem ListItem.FragmentFree.sameKind (h : Recoverable whole canonical)
    {entry other : ListItem α} {rest tail : List Node} (free : entry.FragmentFree whole)
    (otherFree : other.FragmentFree whole) (same : entry.nodes ++ rest = other.nodes ++ tail) :
    (∃ a b, entry = .item a ∧ other = .item b ∧ whole a ∧ whole b) ∨
      (∃ a b, entry = .template a ∧ other = .template b) ∨
        ∃ a b, entry = .block a ∧ other = .block b := by
  have templateNotBranch (c : Condition) : "template" ≠ ifKey c := by
    intro same
    have isBranch := isBranchKey_ifKey c
    rw [← same] at isBranch
    exact absurd isBranch (by decide)
  have itemNotBranch {key : String} (notBranch : ¬IsBranchKey key) (c : Condition) :
      key ≠ ifKey c := by
    rintro rfl
    exact notBranch (isBranchKey_ifKey c)
  cases free with
  | @item a good =>
    obtain ⟨key, first, notTemplate, notBranch⟩ := h.firstKey?_item a rest
    cases otherFree with
    | @item b otherGood => exact .inl ⟨a, b, rfl, rfl, good, otherGood⟩
    | template b =>
      exact absurd same (nodes_append_ne_of_firstKey? first (firstKey?_template b tail) notTemplate)
    | @block b _ =>
      exact absurd same (nodes_append_ne_of_firstKey? first (firstKey?_block b tail)
        (itemNotBranch notBranch _))
  | template a =>
    have first := firstKey?_template (α := α) a rest
    cases otherFree with
    | @item b _ =>
      obtain ⟨key, second, notTemplate, _⟩ := h.firstKey?_item b tail
      exact absurd same (nodes_append_ne_of_firstKey? first second notTemplate.symm)
    | template b => exact .inr (.inl ⟨a, b, rfl, rfl⟩)
    | @block b _ =>
      exact absurd same (nodes_append_ne_of_firstKey? first (firstKey?_block b tail)
        (templateNotBranch _))
  | @block a _ =>
    have first := firstKey?_block a rest
    cases otherFree with
    | @item b _ =>
      obtain ⟨key, second, _, notBranch⟩ := h.firstKey?_item b tail
      exact absurd same (nodes_append_ne_of_firstKey? first second (itemNotBranch notBranch _).symm)
    | template b =>
      exact absurd same (nodes_append_ne_of_firstKey? first (firstKey?_template b tail)
        (templateNotBranch _).symm)
    | @block b _ => exact .inr (.inr ⟨a, b, rfl, rfl⟩)

/-- A list below a key of a branch. -/
theorem branchNode_inj {key other : String} {items others rest tail : List Node}
    (same : Node.mapping [(key, .sequence items)] :: rest =
      .mapping [(other, .sequence others)] :: tail) :
    key = other ∧ items = others ∧ rest = tail := by
  simpa [and_assoc] using same

theorem elseNodes_append_not_elseIf (elseItems : Option (List (ListItem α))) {rest : List Node}
    (fresh : StartsFresh rest) (c : Condition) :
    firstKey? (elseNodes elseItems ++ rest) ≠ some (elseIfKey c) := by
  cases elseItems with
  | none =>
    rw [elseNodes]
    exact fresh.2 c
  | some items =>
    rw [elseNodes]
    exact fun same => elseIfKey_ne_elseKey c (Option.some.inj same).symm

mutual

/-- An entry is recovered from its nodes, and where they end. -/
theorem ListItem.map_eq_of_nodes_append_eq (h : Recoverable whole canonical)
    (entry : ListItem α) {other : ListItem α} {rest tail : List Node}
    (free : entry.FragmentFree whole) (otherFree : other.FragmentFree whole)
    (fresh : StartsFresh rest) (otherFresh : StartsFresh tail)
    (same : entry.nodes ++ rest = other.nodes ++ tail) :
    entry.map canonical = other.map canonical ∧ rest = tail := by
  rcases free.sameKind h otherFree same with ⟨a, b, rfl, rfl, good, otherGood⟩ |
    ⟨a, b, rfl, rfl⟩ | ⟨⟨condition, items, elseIfs, elseItems⟩,
      ⟨condition', items', elseIfs', elseItems'⟩, rfl, rfl⟩
  · simp only [ListItem.nodes, List.singleton_append, List.cons.injEq, Node.mapping.injEq] at same
    obtain ⟨fields, tails⟩ := same
    rw [ListItem.map, ListItem.map, h.eq_of_fields good otherGood fields]
    exact ⟨rfl, tails⟩
  · simp only [ListItem.nodes, List.singleton_append, List.cons.injEq] at same
    obtain ⟨nodes, tails⟩ := same
    rw [TemplateReference.node_injective nodes]
    exact ⟨rfl, tails⟩
  · rw [ListItem.fragmentFree_block_iff] at free otherFree
    simp only [ListItem.inner, List.forall_mem_append] at free otherFree
    obtain ⟨itemsFree, elseIfsFree, elseFree⟩ := free
    obtain ⟨itemsFree', elseIfsFree', elseFree'⟩ := otherFree
    simp only [ListItem.nodes, Conditioned.nodes, List.cons_append, List.append_assoc] at same
    obtain ⟨key, lists, tails⟩ := branchNode_inj same
    have sameItems := mapItems_eq_of_listNodes_eq h items itemsFree itemsFree' lists
    obtain ⟨sameBranches, elses⟩ :=
      mapBranches_eq_of_branchNodes_append_eq h elseIfs elseIfsFree elseIfsFree'
        (elseNodes_append_not_elseIf elseItems fresh)
        (elseNodes_append_not_elseIf elseItems' otherFresh) tails
    obtain ⟨sameElse, rests⟩ :=
      mapElse_eq_of_elseNodes_append_eq h elseItems elseFree elseFree' fresh otherFresh elses
    rw [ListItem.map, ListItem.map, Conditioned.map, Conditioned.map, sameItems, sameBranches,
      sameElse, ifKey_injective key]
    exact ⟨rfl, rests⟩

termination_by sizeOf entry

/-- **A list without fragments is recovered from its nodes.** -/
theorem mapItems_eq_of_listNodes_eq (h : Recoverable whole canonical)
    (entries : List (ListItem α)) {others : List (ListItem α)}
    (free : ∀ entry ∈ entries, entry.FragmentFree whole)
    (otherFree : ∀ entry ∈ others, entry.FragmentFree whole)
    (same : listNodes entries = listNodes others) :
    mapItems canonical entries = mapItems canonical others := by
  match entries, others with
  | [], others =>
    rw [listNodes] at same
    rw [(listNodes_eq_nil_iff_of_fragmentFree otherFree).1 same.symm]
  | entry :: entries, [] =>
    rw [listNodes_eq_nil_iff_of_fragmentFree free |>.1 (by rw [same, listNodes])]
  | entry :: entries, other :: others =>
    rw [List.forall_mem_cons] at free otherFree
    rw [listNodes, listNodes] at same
    obtain ⟨first, rests⟩ := entry.map_eq_of_nodes_append_eq h free.1 otherFree.1
      (startsFresh_listNodes h free.2) (startsFresh_listNodes h otherFree.2) same
    rw [mapItems, mapItems, first, mapItems_eq_of_listNodes_eq h entries free.2 otherFree.2 rests]
termination_by sizeOf entries

theorem mapBranches_eq_of_branchNodes_append_eq (h : Recoverable whole canonical)
    (branches : List (Branch α)) {others : List (Branch α)} {rest tail : List Node}
    (free : ∀ entry ∈ branches.flatMap Branch.items, entry.FragmentFree whole)
    (otherFree : ∀ entry ∈ others.flatMap Branch.items, entry.FragmentFree whole)
    (ends : ∀ c, firstKey? rest ≠ some (elseIfKey c))
    (otherEnds : ∀ c, firstKey? tail ≠ some (elseIfKey c))
    (same : branchNodes branches ++ rest = branchNodes others ++ tail) :
    mapBranches canonical branches = mapBranches canonical others ∧ rest = tail := by
  match branches, others with
  | [], [] =>
    rw [branchNodes, List.nil_append, List.nil_append] at same
    exact ⟨rfl, same⟩
  | [], ⟨condition, items⟩ :: others =>
    rw [branchNodes, List.nil_append, branchNodes, Branch.node] at same
    rw [same] at ends
    exact absurd rfl (ends condition)
  | ⟨condition, items⟩ :: branches, [] =>
    rw [branchNodes, List.nil_append, branchNodes, Branch.node] at same
    rw [← same] at otherEnds
    exact absurd rfl (otherEnds condition)
  | ⟨condition, items⟩ :: branches, ⟨condition', items'⟩ :: others =>
    rw [List.flatMap_cons, List.forall_mem_append] at free otherFree
    simp only [branchNodes, Branch.node, List.cons_append] at same
    obtain ⟨key, lists, tails⟩ := branchNode_inj same
    have sameItems := mapItems_eq_of_listNodes_eq h items free.1 otherFree.1 lists
    obtain ⟨sameBranches, rests⟩ := mapBranches_eq_of_branchNodes_append_eq h branches free.2
      otherFree.2 ends otherEnds tails
    rw [mapBranches, mapBranches, Branch.map, Branch.map, sameItems, sameBranches,
      elseIfKey_injective key]
    exact ⟨rfl, rests⟩
termination_by sizeOf branches

theorem mapElse_eq_of_elseNodes_append_eq (h : Recoverable whole canonical)
    (elseItems : Option (List (ListItem α))) {others : Option (List (ListItem α))}
    {rest tail : List Node}
    (free : ∀ entry ∈ elseItems.getD [], entry.FragmentFree whole)
    (otherFree : ∀ entry ∈ others.getD [], entry.FragmentFree whole)
    (fresh : StartsFresh rest) (otherFresh : StartsFresh tail)
    (same : elseNodes elseItems ++ rest = elseNodes others ++ tail) :
    mapElse canonical elseItems = mapElse canonical others ∧ rest = tail := by
  match elseItems, others with
  | none, none =>
    rw [elseNodes, List.nil_append, List.nil_append] at same
    exact ⟨rfl, same⟩
  | none, some items =>
    rw [elseNodes, List.nil_append, elseNodes] at same
    rw [same] at fresh
    exact absurd rfl fresh.1
  | some items, none =>
    rw [elseNodes, List.nil_append, elseNodes] at same
    rw [← same] at otherFresh
    exact absurd rfl otherFresh.1
  | some items, some others =>
    simp only [elseNodes, List.cons_append, List.nil_append] at same
    obtain ⟨_, lists, rests⟩ := branchNode_inj same
    rw [mapElse, mapElse, mapItems_eq_of_listNodes_eq h items free otherFree lists]
    exact ⟨rfl, rests⟩
termination_by sizeOf elseItems

end

end Lists

end AzurePipelines
