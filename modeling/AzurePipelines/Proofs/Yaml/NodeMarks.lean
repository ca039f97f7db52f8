import AzurePipelines.Proofs.Yaml.InlineText
import Mathlib

/-!
# Nodes as marks

The marks that a node is laid out as (`Node.marks`), and what they say: put together by columns
alone, they are the content of the node, whatever marks follow further to the left (`foldrM_marks`).
A sequence below a key stands at the column of the key, so that the next entry of the surrounding
mapping, and no item, can follow at that column (`Outside`).
-/

namespace AzurePipelines

/-- A scalar as a document holds it: a typed value is plain. -/
def Scalar.content (value : Scalar) : Yaml.Content :=
  if value.isTyped then .scalar true value.bareText else Yaml.textContent value.text

namespace Yaml

/-! ## Content and marks of nodes -/

mutual

/-- What a node says. -/
def Node.content : Node → Content
  | .scalar value => value.content
  | .sequence items => .sequence (itemContents items)
  | .mapping entries => .mapping (entryContents entries)

def itemContents : List Node → List Content
  | [] => []
  | item :: items => item.content :: itemContents items

def entryContents : List (String × Node) → List (Content × Content)
  | [] => []
  | (key, node) :: entries => (textContent key, node.content) :: entryContents entries

end

mutual

/-- The marks of a value, if items stand at the one column and entries at the other. -/
def Node.marks (itemColumn entryColumn : Nat) : Node → List Mark
  | .scalar value => [.value value.content]
  | .sequence [] => [.value (.sequence [])]
  | .mapping [] => [.value (.mapping [])]
  | .sequence (item :: items) => itemMarks itemColumn (item :: items)
  | .mapping (entry :: entries) => entryMarks entryColumn (entry :: entries)

def itemMarks (column : Nat) : List Node → List Mark
  | [] => []
  | item :: items =>
    .dash column :: (item.marks (column + 2) (column + 2) ++ itemMarks column items)

def entryMarks (column : Nat) : List (String × Node) → List Mark
  | [] => []
  | (key, node) :: entries =>
    .key column (textContent key) ::
      (node.marks column (column + 2) ++ entryMarks column entries)

end

/-! ## Parts further to the left -/

/-- The parts start with nothing that goes on with a value whose items stand at the one column and
whose entries stand at the other. -/
inductive Outside (itemColumn entryColumn : Nat) : List Part → Prop
  | nil : Outside itemColumn entryColumn []
  | items {column : Nat} {contents : List Content} {parts : List Part} :
    column < itemColumn → Outside itemColumn entryColumn (.items column contents :: parts)
  | entries {column : Nat} {contents : List (Content × Content)} {parts : List Part} :
    column ≤ itemColumn → column < entryColumn →
    Outside itemColumn entryColumn (.entries column contents :: parts)

theorem Outside.mono {itemColumn itemColumn' entryColumn entryColumn' : Nat} {parts : List Part}
    (h : Outside itemColumn entryColumn parts)
    (itemLe : itemColumn ≤ itemColumn') (entryLe : entryColumn ≤ entryColumn') :
    Outside itemColumn' entryColumn' parts := by
  cases h with
  | nil => exact .nil
  | items lt => exact .items (lt.trans_le itemLe)
  | entries le lt => exact .entries (le.trans itemLe) (lt.trans_le entryLe)

namespace Part

/-- The items of a sequence as one part, if there are any. -/
def ofItems (column : Nat) : List Content → List Part
  | [] => []
  | item :: others => [.items column (item :: others)]

/-- The entries of a mapping as one part, if there are any. -/
def ofEntries (column : Nat) : List (Content × Content) → List Part
  | [] => []
  | entry :: others => [.entries column (entry :: others)]

variable {itemColumn entryColumn column : Nat} {parts : List Part}

theorem consItem_ofItems (outside : Outside column entryColumn parts) (item : Content)
    (others : List Content) :
    consItem column item (ofItems column others ++ parts) =
      ofItems column (item :: others) ++ parts := by
  cases others with
  | nil =>
    cases outside with
    | nil => rfl
    | items lt => simp [ofItems, consItem, lt.ne]
    | entries _ _ => rfl
  | cons next others => simp [ofItems, consItem]

theorem consEntry_ofEntries (outside : Outside itemColumn column parts) (entry : Content × Content)
    (others : List (Content × Content)) :
    consEntry column entry (ofEntries column others ++ parts) =
      ofEntries column (entry :: others) ++ parts := by
  cases others with
  | nil =>
    cases outside with
    | nil => rfl
    | items _ => rfl
    | entries _ lt => simp [ofEntries, consEntry, lt.ne]
  | cons next others => simp [ofEntries, consEntry]

/-- The items of one sequence may follow each other. -/
theorem outside_ofItems (outside : Outside column entryColumn parts) (others : List Content) :
    Outside (column + 2) (column + 2) (ofItems column others ++ parts) := by
  cases others with
  | nil =>
    cases outside with
    | nil => exact .nil
    | items lt => exact .items (by omega)
    | entries le _ => exact .entries (by omega) (by omega)
  | cons next others => exact .items (by omega)

/-- The entries of one mapping may follow each other. -/
theorem outside_ofEntries (outside : Outside itemColumn column parts) (le : itemColumn ≤ column)
    (others : List (Content × Content)) :
    Outside column (column + 2) (ofEntries column others ++ parts) := by
  cases others with
  | nil => exact outside.mono le (Nat.le_add_right column 2)
  | cons next others => exact .entries le_rfl (by omega)

end Part

/-! ## What marks say -/

mutual

/-- **The marks of a node say what the node says.** -/
theorem Node.foldrM_marks {itemColumn entryColumn : Nat} {parts : List Part} (node : Node)
    (outside : Outside itemColumn entryColumn parts) (le : itemColumn ≤ entryColumn) :
    ∃ read, (node.marks itemColumn entryColumn).foldrM Part.before parts = some read ∧
      Part.firstValue? itemColumn entryColumn read = some (node.content, parts) := by
  match node with
  | .scalar value => exact ⟨_, rfl, rfl⟩
  | .sequence [] => exact ⟨_, rfl, rfl⟩
  | .mapping [] => exact ⟨_, rfl, rfl⟩
  | .sequence (item :: others) =>
    refine ⟨_, foldrM_itemMarks (item :: others) outside, ?_⟩
    simp [Part.ofItems, Part.firstValue?, itemContents, Node.content]
  | .mapping ((key, value) :: others) =>
    refine ⟨_, foldrM_entryMarks ((key, value) :: others) outside le, ?_⟩
    simp [Part.ofEntries, Part.firstValue?, entryContents, Node.content]

theorem foldrM_itemMarks {column entryColumn : Nat} {parts : List Part} (nodes : List Node)
    (outside : Outside column entryColumn parts) :
    (itemMarks column nodes).foldrM Part.before parts =
      some (Part.ofItems column (itemContents nodes) ++ parts) := by
  match nodes with
  | [] => rfl
  | node :: others =>
    obtain ⟨read, folded, value⟩ :=
      node.foldrM_marks (Part.outside_ofItems outside (itemContents others)) le_rfl
    rw [itemMarks, List.foldrM_cons, List.foldrM_append, foldrM_itemMarks others outside,
      Option.bind_eq_bind, Option.bind_some, folded, Option.bind_some,
      Part.before, value, Option.map_some, Part.consItem_ofItems outside, itemContents]

theorem foldrM_entryMarks {itemColumn column : Nat} {parts : List Part}
    (nodes : List (String × Node))
    (outside : Outside itemColumn column parts) (le : itemColumn ≤ column) :
    (entryMarks column nodes).foldrM Part.before parts =
      some (Part.ofEntries column (entryContents nodes) ++ parts) := by
  match nodes with
  | [] => rfl
  | (key, node) :: others =>
    obtain ⟨read, folded, value⟩ :=
      node.foldrM_marks (Part.outside_ofEntries outside le (entryContents others))
        (Nat.le_add_right column 2)
    rw [entryMarks, List.foldrM_cons, List.foldrM_append, foldrM_entryMarks others outside le,
      Option.bind_eq_bind, Option.bind_some, folded, Option.bind_some,
      Part.before, value, Option.map_some, Part.consEntry_ofEntries outside, entryContents]

end

end Yaml

end AzurePipelines
