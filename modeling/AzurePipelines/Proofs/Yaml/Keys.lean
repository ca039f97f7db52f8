import AzurePipelines.Proofs.Yaml.Header
import AzurePipelines.Value
import Mathlib

/-!
# Keys of mappings

The keys of all mappings of a node (`Node.keyLists`), and how they stand in a document: each on one
line, between the dashes that open its entry and its colon (`StandsAsKey`,
`exists_mem_linesRead_render`).  On its line a key is what `inline` makes of it: no two keys are
written alike (`inline_injective`), and none is shorter than its text (`length_le_length_inline`).
-/

namespace AzurePipelines.Yaml

/-! ## Keys of all mappings -/

mutual

/-- The keys of every mapping of the node, those of a mapping before those of the mappings in it. -/
def Node.keyLists : Node → List (List String)
  | .scalar _ => []
  | .sequence items => itemKeyLists items
  | .mapping entries => entries.map Prod.fst :: entryKeyLists entries

def itemKeyLists : List Node → List (List String)
  | [] => []
  | item :: items => item.keyLists ++ itemKeyLists items

def entryKeyLists : List (String × Node) → List (List String)
  | [] => []
  | (_, node) :: entries => node.keyLists ++ entryKeyLists entries

end

theorem itemKeyLists_eq_flatMap (items : List Node) :
    itemKeyLists items = items.flatMap Node.keyLists := by
  induction items with
  | nil => rfl
  | cons item items ih => rw [itemKeyLists, ih, List.flatMap_cons]

theorem entryKeyLists_eq_flatMap (entries : List (String × Node)) :
    entryKeyLists entries = entries.flatMap (·.2.keyLists) := by
  induction entries with
  | nil => rfl
  | cons entry entries ih => rw [entryKeyLists, ih, List.flatMap_cons]

@[simp] theorem itemKeyLists_append (items others : List Node) :
    itemKeyLists (items ++ others) = itemKeyLists items ++ itemKeyLists others := by
  simp only [itemKeyLists_eq_flatMap, List.flatMap_append]

@[simp] theorem entryKeyLists_append (entries others : List (String × Node)) :
    entryKeyLists (entries ++ others) = entryKeyLists entries ++ entryKeyLists others := by
  simp only [entryKeyLists_eq_flatMap, List.flatMap_append]

theorem itemKeyLists_flatMap {α : Type} (write : α → List Node) (values : List α) :
    itemKeyLists (values.flatMap write) =
      values.flatMap fun value => itemKeyLists (write value) := by
  simp only [itemKeyLists_eq_flatMap, List.flatMap_assoc]

/-- Where no mapping repeats a key, all lists of keys are without repetition. -/
theorem Node.KeysDistinct.nodup {node : Node} (distinct : node.KeysDistinct) :
    ∀ keys ∈ node.keyLists, keys.Nodup := by
  induction distinct with
  | scalar value => exact List.forall_mem_nil _
  | sequence _ ih =>
    rw [keyLists, itemKeyLists_eq_flatMap, List.forall_mem_flatMap]
    exact ih
  | mapping nodup _ ih =>
    rw [keyLists, entryKeyLists_eq_flatMap, List.forall_mem_cons, List.forall_mem_flatMap]
    exact ⟨nodup, ih⟩

/-! ## Keys as they are written -/

/-- Different texts are written differently on one line. -/
theorem inline_injective {one other : String} (same : inline one.toList = inline other.toList) :
    one = other := by
  have first := lineScalar_inline one .nil
  have second := lineScalar_inline other .nil
  rw [same, second] at first
  simp only [textContent, Option.some.injEq, Prod.mk.injEq, Content.scalar.injEq, and_true] at first
  exact first.2.symm

theorem length_le_length_flatMap_of_ne_nil {text : List Char} {write : Char → List Char}
    (written : ∀ c, write c ≠ []) : text.length ≤ (text.flatMap write).length := by
  induction text with
  | nil => exact le_rfl
  | cons c text ih =>
    have here := List.length_pos_of_ne_nil (written c)
    rw [List.flatMap_cons, List.length_append, List.length_cons]
    omega

theorem escaped_ne_nil (c : Char) : escaped c ≠ [] := by
  rcases escaped_cases c with ⟨_, e, _, shape⟩ | ⟨_, shape⟩ | ⟨_, shape⟩
  · rw [shape]
    apply List.cons_ne_nil
  · rw [shape]
    apply List.cons_ne_nil
  · rw [shape]
    apply List.cons_ne_nil

theorem length_le_length_doubleQuoted (text : List Char) :
    text.length ≤ (doubleQuoted text).length := by
  have inside : text.length ≤ (text.flatMap escaped).length :=
    length_le_length_flatMap_of_ne_nil escaped_ne_nil
  rw [doubleQuoted, List.length_append, List.length_cons]
  omega

/-- No text gets shorter by being written on one line. -/
theorem length_le_length_inline (text : List Char) : text.length ≤ (inline text).length := by
  unfold inline
  split
  · exact le_rfl
  · have inside : text.length ≤ (Text.doubleQuotes text).length := by
      apply length_le_length_flatMap_of_ne_nil
      intro c
      split
      · apply List.cons_ne_nil
      · apply List.cons_ne_nil
    rw [Text.quoted, List.length_append, List.length_cons]
    omega
  · exact length_le_length_doubleQuoted text
  · exact length_le_length_doubleQuoted text

theorem length_flatMap_le {text : List Char} {write : Char → List Char} {most : Nat}
    (bounded : ∀ c, (write c).length ≤ most) :
    (text.flatMap write).length ≤ most * text.length := by
  induction text with
  | nil => exact le_rfl
  | cons c text ih =>
    have here := bounded c
    rw [List.flatMap_cons, List.length_append, List.length_cons, Nat.mul_succ]
    omega

theorem length_escaped_le (c : Char) : (escaped c).length ≤ 6 := by
  rcases escaped_cases c with ⟨_, e, _, shape⟩ | ⟨_, shape⟩ | ⟨_, shape⟩
  · rw [shape]
    exact Nat.le_add_left 2 4
  · rw [shape]
    exact le_rfl
  · rw [shape]
    exact Nat.le_add_left 1 5

theorem length_doubleQuoted_le (text : List Char) :
    (doubleQuoted text).length ≤ 6 * text.length + 2 := by
  have inside : (text.flatMap escaped).length ≤ 6 * text.length :=
    length_flatMap_le length_escaped_le
  rw [doubleQuoted, List.length_append, List.length_cons, List.length_singleton]
  omega

/-- On one line no text gets longer than six times its length, and the quotes around it. -/
theorem length_inline_le (text : List Char) : (inline text).length ≤ 6 * text.length + 2 := by
  unfold inline
  split
  · omega
  · have inside : (Text.doubleQuotes text).length ≤ 2 * text.length := by
      apply length_flatMap_le
      intro c
      split
      · exact le_rfl
      · exact Nat.le_succ 1
    rw [Text.quoted, List.length_append, List.length_cons, List.length_singleton]
    omega
  · exact length_doubleQuoted_le text
  · exact length_doubleQuoted_le text

/-- The length up to which readers of a line look for the colon behind a key. -/
def keyLimit : Nat := 1024

/-- As it is written, the key is not longer than readers look for it. -/
def IsShortKey (key : String) : Prop := (inline key.toList).length ≤ keyLimit

theorem isShortKey_of_length_le {key : String} (h : key.length ≤ 170) : IsShortKey key := by
  have written := length_inline_le key.toList
  rw [String.length_toList] at written
  unfold IsShortKey keyLimit
  omega

/-! ## Lines with keys -/

/-- What may stand on a line before a key: the spaces up to its column, and a dash. -/
def IsLead (lead : Line) : Prop := ∀ c ∈ lead, c = ' ' ∨ c = '-'

/-- The key stands on the line: after nothing but spaces and dashes, and before its colon. -/
def StandsAsKey (key : String) (line : Line) : Prop :=
  ∃ lead rest, line = lead ++ inline key.toList ++ ':' :: rest ∧ IsLead lead

theorem isLead_margin (column : Nat) : IsLead (margin column) := by
  intro c member
  exact .inl (List.eq_of_mem_replicate member)

theorem isLead_dash (column : Nat) : IsLead (margin column ++ ['-', ' ']) := by
  intro c member
  rcases List.mem_append.1 member with member | member
  · exact isLead_margin column c member
  · simpa [or_comm] using member

/-- Each of the keys stands on a line of the layout. -/
def Layout.Shows (layout : Layout) (keys : List String) : Prop :=
  ∀ key ∈ keys, ∃ line ∈ layout.lines, StandsAsKey key line

namespace Layout.Shows

variable {upper lower : Layout} {keys others : List String}

theorem nil (layout : Layout) : layout.Shows [] := List.forall_mem_nil _

theorem below (h : lower.Shows keys) (upper : Layout) : (upper ++ lower).Shows keys := by
  intro key member
  obtain ⟨line, inLines, stands⟩ := h key member
  exact ⟨line, List.mem_append_right _ inLines, stands⟩

theorem append (h : upper.Shows keys) (next : lower.Shows others) :
    (upper ++ lower).Shows (keys ++ others) := by
  refine List.forall_mem_append.2 ⟨fun key member => ?_, next.below upper⟩
  obtain ⟨line, inLines, stands⟩ := h key member
  exact ⟨line, List.mem_append_left _ inLines, stands⟩

theorem mono (h : upper.Shows keys) (subset : others ⊆ keys) : upper.Shows others :=
  fun key member => h key (subset member)

end Layout.Shows

/-- The keys of a mapping are those of its first entry and those of the others. -/
theorem flatten_keyLists_cons_subset (key : String) (node : Node) (others : List (String × Node)) :
    (Node.mapping ((key, node) :: others)).keyLists.flatten ⊆
      key :: node.keyLists.flatten ++ (Node.mapping others).keyLists.flatten := by
  intro shown member
  simp only [Node.keyLists, entryKeyLists, List.map_cons, List.flatten_cons, List.flatten_append,
    List.mem_append, List.mem_cons] at member ⊢
  tauto

mutual

/-- An entry shows its key and all keys of its value. -/
theorem shows_entryLayout (spaced : Bool) {lead : Line} (isLead : IsLead lead) (column : Nat)
    (key : String) (node : Node) :
    (entryLayout spaced lead column key node).Shows (key :: node.keyLists.flatten) := by
  refine List.forall_mem_cons.2 ⟨?_, ?_⟩
  · obtain ⟨chars, below, shape⟩ := exists_lines_entryLayout spaced lead column key node
    rw [shape]
    exact ⟨_, List.mem_cons_self, lead, chars, rfl, isLead⟩
  · match node with
    | .scalar _ | .sequence [] | .mapping [] => exact Layout.Shows.nil _
    | .sequence (item :: items) =>
      exact (shows_sequenceLayout spaced column none (item :: items)).below _
    | .mapping (entry :: entries) =>
      exact (shows_mappingLayout spaced (isLead_margin (column + 2)) (column + 2)
        (entry :: entries)).below _

theorem shows_mappingLayout (spaced : Bool) {lead : Line} (isLead : IsLead lead) (column : Nat)
    (entries : List (String × Node)) :
    (mappingLayout spaced lead column entries).Shows (Node.mapping entries).keyLists.flatten := by
  match entries with
  | [] => exact .nil _
  | (key, node) :: others =>
    apply Layout.Shows.mono _ (flatten_keyLists_cons_subset key node others)
    exact (shows_entryLayout spaced isLead column key node).append
      (shows_mappingLayout spaced (isLead_margin column) column others)

theorem shows_sequenceLayout (spaced : Bool) (column : Nat) (upon : Option Bool)
    (items : List Node) :
    (sequenceLayout spaced column upon items).Shows (itemKeyLists items).flatten := by
  match items with
  | [] => exact .nil _
  | item :: others =>
    rw [itemKeyLists, List.flatten_append]
    exact (shows_itemLayout spaced column upon item).append
      (shows_sequenceLayout spaced column _ others)

theorem shows_itemLayout (spaced : Bool) (column : Nat) (upon : Option Bool) (item : Node) :
    (itemLayout spaced column upon item).Shows item.keyLists.flatten := by
  match item with
  | .scalar _ | .sequence [] | .mapping [] => exact .nil _
  | .sequence (item :: items) =>
    exact (shows_sequenceLayout spaced (column + 2) none (item :: items)).below _
  | .mapping (entry :: entries) =>
    exact (shows_mappingLayout spaced (isLead_dash column) (column + 2) (entry :: entries)).below _

end

theorem shows_sectionsLayout (spaced : Bool) (upon : Option Bool)
    (sections : List (String × Node)) :
    (sectionsLayout spaced upon sections).Shows (Node.mapping sections).keyLists.flatten := by
  induction sections generalizing upon with
  | nil => exact .nil _
  | cons entry sections ih =>
    obtain ⟨key, node⟩ := entry
    have first := (shows_entryLayout spaced (isLead_margin 0) 0 key node).below (Layout.gap upon)
    apply Layout.Shows.mono _ (flatten_keyLists_cons_subset key node sections)
    exact first.append (ih _)

/-- **Every key of a document stands on a line of its text**, whatever its header is. -/
theorem exists_mem_linesRead_render (header : List String) (spaced : Bool)
    {sections : List (String × Node)} {key : String}
    (member : key ∈ (Node.mapping sections).keyLists.flatten) :
    ∃ line ∈ linesRead (render header spaced sections).toList, StandsAsKey key line := by
  rw [linesRead_render, linesRead_render_nil]
  obtain ⟨line, inLines, stands⟩ := shows_sectionsLayout spaced none sections key member
  exact ⟨line, List.mem_append_right _ inLines, stands⟩

end AzurePipelines.Yaml
