import AzurePipelines.Pipeline.Branching
import AzurePipelines.Proofs.Pipeline.Recovery
import AzurePipelines.Proofs.Pipeline.Splicing
import Mathlib

/-!
# Blocks are told apart

The branches of a block are written as mappings beside each other, among the nodes of the entries
around the block.  `readEntries` reads such nodes from left to right: a node whose key starts like
that of a first branch opens a block, the branches that follow are added to the block that is open,
and any other node closes it.  What is read of an accepted list is the list as it was declared, with
fragments replaced by their items and every item as its node (`readEntries_listNodes`): branches are
neither lost nor repeated, keep their order and their items at any depth, and never go over to
another block, whatever the texts of their conditions are.
-/

namespace AzurePipelines

open Yaml (Node)

/-! ## Reading branches -/

/-- What the key of a branch says. -/
inductive BranchMark where
  /-- The first branch of a block. -/
  | opens (condition : Condition)
  /-- A further branch with a condition. -/
  | goesOn (condition : Condition)
  /-- The branch without a condition. -/
  | closes

/-- What the keys of first branches start with. -/
def ifOpening : String := "$\x7b\x7b if "

/-- What the keys of further branches with a condition start with. -/
def elseIfOpening : String := "$\x7b\x7b elseif "

/-- The condition in a key that starts with `opening`: all that follows but the three characters
that end the key. -/
def conditionAfter (opening key : String) : Condition :=
  ⟨.ofList ((key.toList.drop opening.length).take (key.length - opening.length - 3))⟩

def branchMark? (key : String) : Option BranchMark :=
  if ifOpening.toList <+: key.toList then some (.opens (conditionAfter ifOpening key))
  else if elseIfOpening.toList <+: key.toList then some (.goesOn (conditionAfter elseIfOpening key))
  else if key = elseKey then some .closes
  else none

/-- A branch as a node: a mapping with the key of a branch alone, and the nodes below it. -/
def branch? : Node → Option (BranchMark × List Node)
  | .mapping [(key, .sequence items)] => (branchMark? key).map (·, items)
  | _ => none

theorem sizeOf_lt_of_branch? {node : Node} {mark : BranchMark} {items : List Node}
    (found : branch? node = some (mark, items)) : sizeOf items < sizeOf node := by
  match node with
  | .mapping [(key, .sequence others)] =>
    obtain ⟨_, _, same⟩ := Option.map_eq_some_iff.1 found
    obtain rfl : others = items := congrArg Prod.snd same
    simp only [Node.mapping.sizeOf_spec, List.cons.sizeOf_spec, Prod.mk.sizeOf_spec,
      Node.sequence.sizeOf_spec]
    omega

/-- The entry that is read once the block that is open is complete. -/
def completed (block : Option (Conditioned Node)) : List (ListItem Node) := block.toList.map .block

/-- The block after a call that was not refused. -/
def accepted : Except BranchError Unit × Conditioned Node → Option (Conditioned Node)
  | (.ok (), block) => some block
  | (.error _, _) => none

/-- Reads nodes from left to right while `current` is open; nothing is read of nodes in which a
further branch does not follow a block that takes it. -/
def readFrom (current : Option (Conditioned Node)) : List Node → Option (List (ListItem Node))
  | [] => some (completed current)
  | node :: rest =>
    match found : branch? node with
    | none => (readFrom none rest).map (completed current ++ .item node :: ·)
    | some (mark, items) =>
      have _smaller := sizeOf_lt_of_branch? found
      (readFrom none items).bind fun inside =>
        match mark with
        | .opens condition =>
          (readFrom (some (.new condition inside)) rest).map (completed current ++ ·)
        | .goesOn condition =>
          (current.bind fun block => accepted (block.addElseIf condition inside)).bind fun block =>
            readFrom (some block) rest
        | .closes =>
          (current.bind fun block => accepted (block.setElse inside)).bind fun block =>
            readFrom (some block) rest
termination_by nodes => sizeOf nodes
decreasing_by
  all_goals
    rw [List.cons.sizeOf_spec]
    omega

/-- The list that nodes are read as: items as they are written, and blocks. -/
def readEntries (nodes : List Node) : Option (List (ListItem Node)) := readFrom none nodes

/-! ### Keys -/

theorem conditionAfter_append (opening : String) (c : Condition) :
    conditionAfter opening (opening ++ c.text ++ " \x7d\x7d") = c := by
  have ending : (" \x7d\x7d" : String).length = 3 := by decide
  have length : (opening ++ c.text ++ " \x7d\x7d").length - opening.length - 3 =
      c.text.toList.length := by
    rw [String.length_append, String.length_append, ending, String.length_toList]
    omega
  rw [conditionAfter, length, String.toList_append, String.toList_append, List.append_assoc,
    ← String.length_toList, List.drop_left, List.take_left, String.ofList_toList]

theorem ifOpening_prefix_ifKey (c : Condition) : ifOpening.toList <+: (ifKey c).toList := by
  rw [ifKey, String.append_assoc, String.toList_append]
  exact List.prefix_append ifOpening.toList _

theorem elseIfOpening_prefix_elseIfKey (c : Condition) :
    elseIfOpening.toList <+: (elseIfKey c).toList := by
  rw [elseIfKey, String.append_assoc, String.toList_append]
  exact List.prefix_append elseIfOpening.toList _

theorem not_ifOpening_prefix_elseIfKey (c : Condition) :
    ¬ifOpening.toList <+: (elseIfKey c).toList := by
  intro opens
  have shorter := List.prefix_of_prefix_length_le opens (elseIfOpening_prefix_elseIfKey c)
    (by decide)
  exact absurd shorter (by decide)

theorem branchMark?_ifKey (c : Condition) : branchMark? (ifKey c) = some (.opens c) := by
  rw [branchMark?, if_pos (ifOpening_prefix_ifKey c)]
  exact congrArg (some ∘ BranchMark.opens) (conditionAfter_append ifOpening c)

theorem branchMark?_elseIfKey (c : Condition) : branchMark? (elseIfKey c) = some (.goesOn c) := by
  rw [branchMark?, if_neg (not_ifOpening_prefix_elseIfKey c),
    if_pos (elseIfOpening_prefix_elseIfKey c)]
  exact congrArg (some ∘ BranchMark.goesOn) (conditionAfter_append elseIfOpening c)

theorem branchMark?_elseKey : branchMark? elseKey = some .closes := by
  rw [branchMark?, if_neg (by decide), if_neg (by decide), if_pos rfl]

/-- Only keys of branches have a mark. -/
theorem branchMark?_eq_none {key : String} (other : ¬IsBranchKey key) : branchMark? key = none := by
  have notIf : ¬ifOpening.toList <+: key.toList := fun opens =>
    other (List.IsPrefix.trans (by decide) opens)
  have notElseIf : ¬elseIfOpening.toList <+: key.toList := fun opens =>
    other (List.IsPrefix.trans (by decide) opens)
  have notElse : key ≠ elseKey := by
    rintro rfl
    exact other isBranchKey_elseKey
  rw [branchMark?, if_neg notIf, if_neg notElseIf, if_neg notElse]

/-- A mapping that starts with a key of its own is no branch. -/
theorem branch?_mapping_eq_none {key : String} (other : ¬IsBranchKey key) (n : Node)
    (rest : Fields) : branch? (.mapping ((key, n) :: rest)) = none := by
  rw [branch?.eq_def]
  split
  · rename_i found
    simp only [Node.mapping.injEq, List.cons.injEq, Prod.mk.injEq] at found
    rw [← found.1.1, branchMark?_eq_none other]
    rfl
  · rfl

/-! ### Steps of reading -/

section Steps

variable {current : Option (Conditioned Node)} {rest items : List Node}

theorem readFrom_nil : readFrom current [] = some (completed current) := by
  rw [readFrom]

theorem readFrom_own {node : Node} (own : branch? node = none) :
    readFrom current (node :: rest) =
      (readFrom none rest).map (completed current ++ .item node :: ·) := by
  rw [readFrom]
  split
  · rfl
  · rename_i found
    rw [own] at found
    cases found

theorem readFrom_branch {node : Node} {mark : BranchMark}
    (found : branch? node = some (mark, items)) :
    readFrom current (node :: rest) = (readFrom none items).bind fun inside =>
      match mark with
      | .opens condition =>
        (readFrom (some (.new condition inside)) rest).map (completed current ++ ·)
      | .goesOn condition =>
        (current.bind fun block => accepted (block.addElseIf condition inside)).bind fun block =>
          readFrom (some block) rest
      | .closes =>
        (current.bind fun block => accepted (block.setElse inside)).bind fun block =>
          readFrom (some block) rest := by
  rw [readFrom]
  split
  · rename_i own
    rw [own] at found
    cases found
  · rename_i other others found'
    obtain ⟨rfl, rfl⟩ : other = mark ∧ others = items := by
      simpa [found] using found'.symm.trans found
    cases other <;> rfl

variable {inside : List (ListItem Node)}

theorem readFrom_if (read : readFrom none items = some inside) (c : Condition) :
    readFrom current (.mapping [(ifKey c, .sequence items)] :: rest) =
      (readFrom (some (.new c inside)) rest).map (completed current ++ ·) := by
  have found : branch? (.mapping [(ifKey c, .sequence items)]) = some (.opens c, items) := by
    rw [branch?, branchMark?_ifKey]
    rfl
  rw [readFrom_branch found, read]
  rfl

theorem readFrom_elseIf (read : readFrom none items = some inside) (c : Condition)
    {block : Conditioned Node} (isOpen : block.elseItems = none) :
    readFrom (some block) (.mapping [(elseIfKey c, .sequence items)] :: rest) =
      readFrom (some { block with elseIfs := block.elseIfs ++ [⟨c, inside⟩] }) rest := by
  have found : branch? (.mapping [(elseIfKey c, .sequence items)]) = some (.goesOn c, items) := by
    rw [branch?, branchMark?_elseIfKey]
    rfl
  rw [readFrom_branch found, read]
  simp [Conditioned.addElseIf, isOpen, accepted]

theorem readFrom_else (read : readFrom none items = some inside) {block : Conditioned Node}
    (isOpen : block.elseItems = none) :
    readFrom (some block) (.mapping [(elseKey, .sequence items)] :: rest) =
      readFrom (some { block with elseItems := some inside }) rest := by
  have found : branch? (.mapping [(elseKey, .sequence items)]) = some (.closes, items) := by
    rw [branch?, branchMark?_elseKey]
    rfl
  rw [readFrom_branch found, read]
  simp [Conditioned.setElse, isOpen, accepted]

end Steps

/-! ## Lists as they are written -/

section Lists

variable {α : Type}

mutual

/-- The entry with every item, and every reference to a template, as the node of it. -/
def ListItem.written [Listed α] : ListItem α → ListItem Node
  | .item value => .item (.mapping (Listed.fields value))
  | .block branches => .block branches.written
  | .template reference => .item reference.node
  | .fragment items => .fragment (writtenItems items)
  | .foreignFragment kind size => .foreignFragment kind size

def writtenItems [Listed α] : List (ListItem α) → List (ListItem Node)
  | [] => []
  | entry :: rest => entry.written :: writtenItems rest

def Conditioned.written [Listed α] : Conditioned α → Conditioned Node
  | ⟨condition, items, elseIfs, elseItems⟩ =>
    ⟨condition, writtenItems items, writtenBranches elseIfs, writtenElse elseItems⟩

def writtenBranches [Listed α] : List (Branch α) → List (Branch Node)
  | [] => []
  | branch :: rest => branch.written :: writtenBranches rest

def Branch.written [Listed α] : Branch α → Branch Node
  | ⟨condition, items⟩ => ⟨condition, writtenItems items⟩

def writtenElse [Listed α] : Option (List (ListItem α)) → Option (List (ListItem Node))
  | none => none
  | some items => some (writtenItems items)

end

theorem writtenItems_append [Listed α] (entries others : List (ListItem α)) :
    writtenItems (entries ++ others) = writtenItems entries ++ writtenItems others := by
  induction entries with
  | nil => simp [writtenItems]
  | cons entry entries ih => simp [writtenItems, ih]

/-- What is read from here on does not depend on the block that is open. -/
def Independent (rest : List Node) : Prop :=
  ∀ block, readFrom (some block) rest = (readFrom none rest).map (.block block :: ·)

theorem independent_nil : Independent [] := by
  intro block
  simp [readFrom_nil, completed]

theorem independent_own {node : Node} (own : branch? node = none) (rest : List Node) :
    Independent (node :: rest) := by
  intro block
  rw [readFrom_own own, readFrom_own own, Option.map_map]
  rfl

theorem branch?_templateReference (reference : TemplateReference) :
    branch? reference.node = none :=
  branch?_mapping_eq_none (by decide) _ _

variable [Checked α]

mutual

/-- An accepted entry is read as what stands in its place, whatever follows it that does not go on
with a block. -/
theorem ListItem.readFrom_nodes
    (own : ∀ value : α, branch? (.mapping (Listed.fields value)) = none)
    (entry : ListItem α) (accepted : entry.faults = [])
    {rest : List Node} (fresh : Independent rest) :
    readFrom none (entry.nodes ++ rest) =
        (readFrom none rest).map (writtenItems (entry.splice id) ++ ·) ∧
      Independent (entry.nodes ++ rest) := by
  match entry with
  | .item value =>
    rw [ListItem.nodes, List.singleton_append, readFrom_own (own value)]
    exact ⟨rfl, independent_own (own value) rest⟩
  | .template reference =>
    rw [ListItem.nodes, List.singleton_append, readFrom_own (branch?_templateReference reference)]
    exact ⟨rfl, independent_own (branch?_templateReference reference) rest⟩
  | .fragment items =>
    rw [ListItem.nodes, ListItem.splice]
    exact readFrom_listNodes own items ((ListItem.faults_eq_nil_iff _).1 accepted).2 fresh
  | .foreignFragment kind size => exact absurd accepted (by simp [ListItem.faults])
  | .block branches =>
    have read (current : Option (Conditioned Node)) :=
      Conditioned.readFrom_nodes own branches accepted current rest
    rw [ListItem.nodes]
    refine ⟨?_, fun block => ?_⟩
    · rw [read, fresh, Option.map_map]
      rfl
    · rw [read, read, fresh, Option.map_map, Option.map_map, Option.map_map]
      rfl

theorem readFrom_listNodes
    (own : ∀ value : α, branch? (.mapping (Listed.fields value)) = none)
    (entries : List (ListItem α))
    (accepted : ∀ entry ∈ entries, entry.faults = []) {rest : List Node}
    (fresh : Independent rest) :
    readFrom none (listNodes entries ++ rest) =
        (readFrom none rest).map (writtenItems (spliceItems id entries) ++ ·) ∧
      Independent (listNodes entries ++ rest) := by
  match entries with
  | [] =>
    rw [listNodes, spliceItems, writtenItems, List.nil_append]
    simpa using fresh
  | entry :: entries =>
    rw [List.forall_mem_cons] at accepted
    obtain ⟨read, free⟩ := readFrom_listNodes own entries accepted.2 fresh
    obtain ⟨readEntry, freeEntry⟩ := ListItem.readFrom_nodes own entry accepted.1 free
    rw [listNodes, List.append_assoc]
    refine ⟨?_, freeEntry⟩
    rw [readEntry, read, Option.map_map, spliceItems, writtenItems_append]
    simp only [Function.comp_def, List.append_assoc]

/-- The branches of a block are read into one block, while what follows is still to be read. -/
theorem Conditioned.readFrom_nodes
    (own : ∀ value : α, branch? (.mapping (Listed.fields value)) = none)
    (branches : Conditioned α)
    (accepted : (ListItem.block branches).faults = []) (current : Option (Conditioned Node))
    (rest : List Node) :
    readFrom current (branches.nodes ++ rest) =
      (readFrom (some (branches.splice id).written) rest).map (completed current ++ ·) := by
  match branches with
  | ⟨condition, items, elseIfs, elseItems⟩ =>
    have below := ((ListItem.faults_eq_nil_iff _).1 accepted).2
    simp only [ListItem.inner, List.forall_mem_append] at below
    obtain ⟨itemsBelow, elseIfsBelow, elseBelow⟩ := below
    have read : readFrom none (listNodes items) = some (writtenItems (spliceItems id items)) := by
      simpa [readFrom_nil, completed] using
        (readFrom_listNodes own items itemsBelow independent_nil).1
    rw [Conditioned.nodes, List.cons_append, List.append_assoc, readFrom_if read,
      readFrom_branchNodes own elseIfs elseIfsBelow rfl,
      readFrom_elseNodes own elseItems elseBelow rfl]
    simp only [Conditioned.new, List.nil_append, Conditioned.splice, Conditioned.written]

theorem readFrom_branchNodes
    (own : ∀ value : α, branch? (.mapping (Listed.fields value)) = none)
    (branches : List (Branch α))
    (accepted : ∀ entry ∈ branches.flatMap Branch.items, entry.faults = [])
    {block : Conditioned Node} (isOpen : block.elseItems = none) {rest : List Node} :
    readFrom (some block) (branchNodes branches ++ rest) =
      readFrom (some { block with
        elseIfs := block.elseIfs ++ writtenBranches (spliceBranches id branches) }) rest := by
  match branches with
  | [] =>
    rw [branchNodes, spliceBranches, writtenBranches, List.append_nil, List.nil_append]
    cases block
    rfl
  | ⟨condition, items⟩ :: branches =>
    rw [List.flatMap_cons, List.forall_mem_append] at accepted
    have read : readFrom none (listNodes items) = some (writtenItems (spliceItems id items)) := by
      simpa [readFrom_nil, completed] using
        (readFrom_listNodes own items accepted.1 independent_nil).1
    have stillOpen : Conditioned.elseItems { block with
        elseIfs := block.elseIfs ++ [⟨condition, writtenItems (spliceItems id items)⟩] } =
          none := isOpen
    rw [branchNodes, Branch.node, List.cons_append, readFrom_elseIf read condition isOpen,
      readFrom_branchNodes own branches accepted.2 stillOpen]
    simp only [spliceBranches, Branch.splice, writtenBranches, Branch.written, List.append_assoc,
      List.singleton_append]

theorem readFrom_elseNodes
    (own : ∀ value : α, branch? (.mapping (Listed.fields value)) = none)
    (elseItems : Option (List (ListItem α)))
    (accepted : ∀ entry ∈ elseItems.getD [], entry.faults = []) {block : Conditioned Node}
    (isOpen : block.elseItems = none) {rest : List Node} :
    readFrom (some block) (elseNodes elseItems ++ rest) =
      readFrom (some { block with elseItems := writtenElse (spliceElse id elseItems) }) rest := by
  match elseItems with
  | none =>
    rw [elseNodes, spliceElse, writtenElse, List.nil_append, ← isOpen]
    cases block
    rfl
  | some items =>
    have read : readFrom none (listNodes items) = some (writtenItems (spliceItems id items)) := by
      simpa [readFrom_nil, completed] using
        (readFrom_listNodes own items accepted independent_nil).1
    rw [elseNodes, List.singleton_append, readFrom_else read isOpen]
    rw [spliceElse, writtenElse]

end

end Lists

/-! ## Lists entry by entry -/

section Entries

variable {α : Type}

/-- The branches of a block in order: the key of each, with the nodes of its own items. -/
def Conditioned.branchFields [Listed α] (branches : Conditioned α) :
    List (String × Node) :=
  (ifKey branches.condition, .sequence (listNodes branches.items)) ::
    (branches.elseIfs.map (fun branch =>
      (elseIfKey branch.condition, .sequence (listNodes branch.items))) ++
    branches.elseItems.toList.map fun items => (elseKey, .sequence (listNodes items)))

/-- The nodes of an entry that is no fragment. -/
def ListItem.ownNodes [Listed α] : ListItem α → List Node
  | .item value => [.mapping (Listed.fields value)]
  | .template reference => [reference.node]
  | .block branches => branches.branchFields.map fun field => .mapping [field]
  | .fragment _ | .foreignFragment _ _ => []

/-- Which of the nodes of an entry open a block: the first of the branches of a block. -/
def ListItem.openings : ListItem α → List Bool
  | .item _ | .template _ => [false]
  | .block branches => true :: List.replicate (branches.branchCount - 1) false
  | .fragment _ | .foreignFragment _ _ => []

/-- The node starts with the key of a first branch. -/
def opensBlock : Node → Bool
  | .mapping ((key, _) :: _) => decide (ifOpening.toList <+: key.toList)
  | _ => false

theorem Conditioned.nodes_eq_map_branchFields [Listed α] (branches : Conditioned α) :
    branches.nodes = branches.branchFields.map fun field => .mapping [field] := by
  obtain ⟨condition, items, elseIfs, elseItems⟩ := branches
  have elseIfNodes : elseIfs.map Branch.node = elseIfs.map fun branch =>
      .mapping [(elseIfKey branch.condition, .sequence (listNodes branch.items))] :=
    List.map_congr_left fun ⟨condition, items⟩ _ => by rw [Branch.node]
  cases elseItems <;>
    simp [Conditioned.nodes, branchFields, branchNodes_eq_map, elseIfNodes, elseNodes]

theorem Conditioned.length_branchFields [Listed α] (branches : Conditioned α) :
    branches.branchFields.length = branches.branchCount := by
  obtain ⟨condition, items, elseIfs, elseItems⟩ := branches
  cases elseItems <;> simp [branchFields, branchCount, Nat.add_comm]

theorem ListItem.nodes_eq_ownNodes [Listed α] {entry : ListItem α}
    (whole : ∀ items, entry ≠ .fragment items) : entry.nodes = entry.ownNodes := by
  cases entry with
  | item value => rw [ListItem.nodes, ownNodes]
  | template reference => rw [ListItem.nodes, ownNodes]
  | block branches =>
    rw [ListItem.nodes, ownNodes, Conditioned.nodes_eq_map_branchFields]
  | fragment items => exact absurd rfl (whole items)
  | foreignFragment kind size => rw [ListItem.nodes, ownNodes]

theorem listNodes_eq_flatMap_ownNodes [Listed α] (entries : List (ListItem α)) :
    listNodes entries = (spliceItems id entries).flatMap ListItem.ownNodes := by
  rw [← listNodes_spliceItems id (fun _ => rfl) entries, listNodes_eq_flatMap]
  refine List.flatMap_congr fun entry member => ?_
  rw [spliceItems_eq_flatMap, List.mem_flatMap] at member
  obtain ⟨declared, _, member⟩ := member
  exact ListItem.nodes_eq_ownNodes (declared.ne_fragment_of_mem_splice member)

theorem opensBlock_ifKey (c : Condition) (n : Node) :
    opensBlock (.mapping [(ifKey c, n)]) = true :=
  decide_eq_true (ifOpening_prefix_ifKey c)

theorem opensBlock_elseIfKey (c : Condition) (n : Node) :
    opensBlock (.mapping [(elseIfKey c, n)]) = false :=
  decide_eq_false (not_ifOpening_prefix_elseIfKey c)

theorem opensBlock_eq_false {key : String} (other : ¬IsBranchKey key) (n : Node) (rest : Fields) :
    opensBlock (.mapping ((key, n) :: rest)) = false :=
  decide_eq_false fun opens => other (List.IsPrefix.trans (by decide) opens)

theorem map_opensBlock_branchFields [Listed α] (branches : Conditioned α) :
    (branches.branchFields.map fun field => Node.mapping [field]).map opensBlock =
      true :: List.replicate (branches.branchCount - 1) false := by
  obtain ⟨condition, items, elseIfs, elseItems⟩ := branches
  have notElse : ¬ifOpening.toList <+: elseKey.toList := by decide
  have closes (n : Node) : opensBlock (.mapping [(elseKey, n)]) = false :=
    decide_eq_false notElse
  cases elseItems <;>
    simp [Conditioned.branchFields, Conditioned.branchCount, opensBlock_ifKey,
      opensBlock_elseIfKey, closes, Function.comp_def, List.map_const', Nat.add_comm,
      List.replicate_succ']

end Entries

/-! ## Lists of every kind -/

/-- The items of a list of the kind. -/
def ItemKind.Item : ItemKind → Type
  | .variable => Variable
  | .step => Step
  | .job => Job
  | .stage => Stage

instance ItemKind.checkedItem : (kind : ItemKind) → Checked kind.Item
  | .variable => inferInstanceAs (Checked Variable)
  | .step => inferInstanceAs (Checked Step)
  | .job => inferInstanceAs (Checked Job)
  | .stage => inferInstanceAs (Checked Stage)

/-- Items start with a key that is no branch. -/
theorem ItemKind.exists_fields_eq_cons {kind : ItemKind} (value : kind.Item) :
    ∃ key n rest, Listed.fields value = (key, n) :: rest ∧ ¬IsBranchKey key := by
  match kind, value with
  | .variable, value =>
    obtain ⟨key, n, rest, shape, _, other⟩ := Variable.recoverable.head value
    exact ⟨key, n, rest, shape, other⟩
  | .step, value =>
    obtain ⟨key, n, rest, shape, _, other⟩ := Step.recoverable.head value
    exact ⟨key, n, rest, shape, other⟩
  | .job, value =>
    obtain ⟨key, n, rest, shape, _, other⟩ := Job.recoverable.head value
    exact ⟨key, n, rest, shape, other⟩
  | .stage, value =>
    obtain ⟨key, n, rest, shape, _, other⟩ := Stage.recoverable.head value
    exact ⟨key, n, rest, shape, other⟩

theorem ItemKind.branch?_item {kind : ItemKind} (value : kind.Item) :
    branch? (.mapping (Listed.fields value)) = none := by
  obtain ⟨key, n, rest, shape, other⟩ := ItemKind.exists_fields_eq_cons value
  rw [shape]
  exact branch?_mapping_eq_none other n rest

theorem ItemKind.map_opensBlock_ownNodes {kind : ItemKind} (entry : ListItem kind.Item) :
    entry.ownNodes.map opensBlock = entry.openings := by
  cases entry with
  | item value =>
    obtain ⟨key, n, rest, shape, other⟩ := ItemKind.exists_fields_eq_cons value
    rw [ListItem.ownNodes, shape, List.map_singleton, opensBlock_eq_false other,
      ListItem.openings]
  | template reference =>
    exact congrArg ([·]) (opensBlock_eq_false (by decide) _ _)
  | block branches => exact map_opensBlock_branchFields branches
  | fragment items => rfl
  | foreignFragment kind size => rfl

/-- **Blocks are told apart, and lists keep their order.**  The nodes of an accepted list are, entry
by entry and with fragments replaced by their items, the node of an item or of a reference, and for
a block its branches in order, as many as it has.  A block starts at each node with the key of a
first branch and nowhere else, and reading the nodes gives back the entries. -/
theorem readEntries_listNodes {kind : ItemKind} {entries : List (ListItem kind.Item)}
    (accepted : listFaults .index 0 entries = []) :
    listNodes entries = (spliceItems id entries).flatMap ListItem.ownNodes ∧
      (∀ branches : Conditioned kind.Item,
        (ListItem.block branches).ownNodes.length = branches.branchCount) ∧
      (listNodes entries).map opensBlock = (spliceItems id entries).flatMap ListItem.openings ∧
      readEntries (listNodes entries) = some (writtenItems (spliceItems id entries)) := by
  have nodes := listNodes_eq_flatMap_ownNodes entries
  refine ⟨nodes, fun branches => ?_, ?_, ?_⟩
  · rw [ListItem.ownNodes, List.length_map, branches.length_branchFields]
  · rw [nodes, List.map_flatMap]
    simp only [ItemKind.map_opensBlock_ownNodes]
  · have read := (readFrom_listNodes ItemKind.branch?_item entries
      ((listFaults_eq_nil_iff .index 0 entries).1 accepted) independent_nil).1
    simpa [readEntries, readFrom_nil, completed] using read

/-- A block beside a fragment that starts with another block, with conditions that look like parts
of keys. -/
def adjacentBlocks : List (ListItem ItemKind.step.Item) :=
  [.block ⟨⟨"a \x7d\x7d"⟩, [], [], none⟩,
    .fragment [.block ⟨⟨"elseif b"⟩, [.item (Step.task "Build")], [⟨⟨"c"⟩, []⟩], some []⟩],
    .template ⟨"steps.yml", .empty⟩]

theorem readEntries_listNodes_adjacentBlocks :
    listFaults .index 0 adjacentBlocks = [] ∧
      (listNodes adjacentBlocks).map opensBlock = [true, true, false, false, false] ∧
        readEntries (listNodes adjacentBlocks) = some
          [.block ⟨⟨"a \x7d\x7d"⟩, [], [], none⟩,
            .block ⟨⟨"elseif b"⟩, [.item (.mapping (Step.task "Build").fields)], [⟨⟨"c"⟩, []⟩],
              some []⟩,
            .item (TemplateReference.node ⟨"steps.yml", .empty⟩)] := by
  have accepted : listFaults .index 0 adjacentBlocks = [] := by decide
  obtain ⟨_, _, openings, read⟩ := readEntries_listNodes accepted
  exact ⟨accepted, openings, read⟩

end AzurePipelines
