import AzurePipelines.Proofs.Yaml.Header
import Mathlib

/-!
# Columns of layouts

A part of a document may be laid out at any column, and is the same part everywhere: further to the
right every line that is not empty has more spaces in front (`sequenceLayout_eq_shift`), except for
the first line where something stands before it already, as a dash does before a mapping
(`entryLayout_eq_behind`, `mappingLayout_eq_behind`).  So it is with the texts that are written, and
whether line breaks are kept at their end is the same at all columns (`movesTo_indented`).
-/

namespace AzurePipelines.Yaml

/-! ## Lines further to the right -/

/-- The line with more spaces in front; an empty line stays empty. -/
def shifted (columns : Nat) (line : Line) : Line :=
  if line.isEmpty then [] else margin columns ++ line

theorem margin_append_margin (columns more : Nat) :
    margin columns ++ margin more = margin (more + columns) := by
  rw [margin, margin, margin, List.replicate_append_replicate, Nat.add_comm]

theorem shifted_of_ne_nil (columns : Nat) {line : Line} (filled : line ≠ []) :
    shifted columns line = margin columns ++ line := by
  rw [shifted, if_neg (by simpa using filled)]

@[simp] theorem shifted_shifted (columns more : Nat) (line : Line) :
    shifted more (shifted columns line) = shifted (columns + more) line := by
  cases line with
  | nil => rfl
  | cons c line =>
    rw [shifted_of_ne_nil columns (List.cons_ne_nil c line), shifted_of_ne_nil more (by simp),
      shifted_of_ne_nil (columns + more) (List.cons_ne_nil c line), ← List.append_assoc,
      margin_append_margin]

namespace Layout

/-- All lines further to the right. -/
def shift (columns : Nat) (layout : Layout) : Layout :=
  { layout with lines := layout.lines.map (shifted columns) }

/-- The first line behind what has been written of it, and all others further to the right. -/
def behind (lead : Line) (columns : Nat) (layout : Layout) : Layout :=
  { layout with
    lines := match layout.lines with
      | [] => []
      | first :: below => (lead ++ first) :: below.map (shifted columns) }

variable {columns : Nat} {lead : Line} {above below : Layout}

@[simp] theorem shift_line (text : Line) :
    (line text).shift columns = line (shifted columns text) := rfl

@[simp] theorem behind_line (text : Line) :
    (line text).behind lead columns = line (lead ++ text) := rfl

/-- An empty line between two parts is one at all columns. -/
theorem shift_gap (upon : Option Bool) : (gap upon).shift columns = gap upon := by
  unfold gap
  split
  · rfl
  · rfl

theorem append_eq (above below : Layout) : above ++ below =
    ⟨above.lines ++ below.lines, if below.lines.isEmpty then above.keeps else below.keeps⟩ := rfl

@[simp] theorem shift_append (above below : Layout) :
    (above ++ below).shift columns = above.shift columns ++ below.shift columns := by
  rw [append_eq, append_eq, shift, shift, shift, List.map_append, List.isEmpty_map]

theorem behind_append (filled : above.lines ≠ []) (below : Layout) :
    (above ++ below).behind lead columns = above.behind lead columns ++ below.shift columns := by
  obtain ⟨lines, keeps⟩ := above
  obtain ⟨first, others, rfl⟩ := List.exists_cons_of_ne_nil filled
  rw [append_eq, append_eq, shift, behind, behind, List.isEmpty_map]
  simp

/-- Behind spaces alone, the first line is moved as the others are. -/
theorem behind_margin (layout : Layout) (filled : layout.lines.head? ≠ some []) :
    layout.behind (margin columns) columns = layout.shift columns := by
  obtain ⟨lines, keeps⟩ := layout
  cases lines with
  | nil => rfl
  | cons first others =>
    have notEmpty : first ≠ [] := by simpa using filled
    rw [behind, shift, List.map_cons, shifted_of_ne_nil columns notEmpty]

theorem shift_shift (columns more : Nat) (layout : Layout) :
    (layout.shift columns).shift more = layout.shift (columns + more) := by
  simp [shift, Function.comp_def]

theorem behind_behind (front lead : Line) (columns more : Nat) (layout : Layout) :
    (layout.behind lead columns).behind front more =
      layout.behind (front ++ lead) (columns + more) := by
  obtain ⟨lines, keeps⟩ := layout
  cases lines with
  | nil => rfl
  | cons first others => simp [behind, Function.comp_def]

theorem shift_behind (filled : lead ≠ []) (more : Nat) (layout : Layout) :
    (layout.behind lead columns).shift more =
      layout.behind (margin more ++ lead) (columns + more) := by
  rw [← behind_margin, behind_behind]
  obtain ⟨lines, keeps⟩ := layout
  cases lines with
  | nil => simp [behind]
  | cons first others => simp [behind, filled]

end Layout

/-! ## Layouts at columns -/

theorem LiteralBlock.body_eq_map_shifted (block : LiteralBlock) (column : Nat) :
    block.body column = block.lines.map (shifted column) := rfl

/-- A scalar behind more of what stands before it on its line. -/
theorem scalarLayout_append (front lead : Line) (base column : Nat) (belowKey : Bool)
    (value : Scalar) : scalarLayout (front ++ lead) (base + column) belowKey value =
      (scalarLayout lead base belowKey value).behind front column := by
  unfold scalarLayout
  split
  · simp
  · dsimp only
    split
    · split
      · simp
      · rw [Layout.behind, LiteralBlock.body_eq_map_shifted, LiteralBlock.body_eq_map_shifted]
        simp [Function.comp_def]
    · simp

theorem head?_lines_mappingLayout (spaced : Bool) (entries : List (String × Node)) :
    (mappingLayout spaced [] 0 entries).lines.head? ≠ some [] := by
  cases entries with
  | nil => simp [mappingLayout, Layout.empty]
  | cons entry others =>
    obtain ⟨key, node⟩ := entry
    obtain ⟨chars, below, shape⟩ := exists_lines_entryLayout spaced [] 0 key node
    rw [mappingLayout, Layout.lines_append, shape]
    simp

-- By induction on the node, everything is compared with what is laid out at the first column.  What
-- lies below stands at its own distance there, so its two columns are compared through the first.
mutual

/-- At any column and behind anything, an entry is the one at the first column. -/
theorem entryLayout_eq_behind (spaced : Bool) (lead : Line) (column : Nat) (key : String)
    (node : Node) : entryLayout spaced lead column key node =
      (entryLayout spaced [] 0 key node).behind lead column := by
  match node with
  | .scalar value =>
    have moved := scalarLayout_append lead (inline key.toList ++ [':']) 2 column true value
    rw [← List.append_assoc, Nat.add_comm] at moved
    exact moved
  | .sequence [] | .mapping [] => simp [entryLayout]
  | .sequence (item :: items) =>
    rw [entryLayout, entryLayout, sequenceLayout_eq_shift, Layout.behind_append (by simp)]
    simp
  | .mapping (entry :: entries) =>
    have below : mappingLayout spaced (margin (column + 2)) (column + 2) (entry :: entries) =
        (mappingLayout spaced (margin 2) 2 (entry :: entries)).shift column := by
      rw [mappingLayout_eq_behind, mappingLayout_eq_behind spaced (margin 2),
        Layout.shift_behind (by decide), margin_append_margin, Nat.add_comm]
    rw [entryLayout, entryLayout, Layout.behind_append (by simp), below]
    simp

/-- What stands before a mapping stands before its first entry alone. -/
theorem mappingLayout_eq_behind (spaced : Bool) (lead : Line) (column : Nat)
    (entries : List (String × Node)) : mappingLayout spaced lead column entries =
      (mappingLayout spaced [] 0 entries).behind lead column := by
  match entries with
  | [] => rfl
  | (key, node) :: others =>
    obtain ⟨chars, below, shape⟩ := exists_lines_entryLayout spaced [] 0 key node
    have rest : mappingLayout spaced (margin column) column others =
        (mappingLayout spaced (margin 0) 0 others).shift column := by
      rw [mappingLayout_eq_behind, Layout.behind_margin _ (head?_lines_mappingLayout spaced others)]
      rfl
    rw [mappingLayout, mappingLayout, Layout.behind_append (by simp [shape]), rest,
      entryLayout_eq_behind]

theorem sequenceLayout_eq_shift (spaced : Bool) (column : Nat) (upon : Option Bool)
    (items : List Node) : sequenceLayout spaced column upon items =
      (sequenceLayout spaced 0 upon items).shift column := by
  match items with
  | [] => rfl
  | item :: others =>
    rw [sequenceLayout, sequenceLayout, Layout.shift_append, ← itemLayout_eq_shift,
      sequenceLayout_eq_shift]
    rw [itemLayout_eq_shift]
    rfl

theorem itemLayout_eq_shift (spaced : Bool) (column : Nat) (upon : Option Bool) (item : Node) :
    itemLayout spaced column upon item = (itemLayout spaced 0 upon item).shift column := by
  match item with
  | .scalar value =>
    have moved := scalarLayout_append (margin column) ['-'] 2 column false value
    obtain ⟨chars, below, shape⟩ := exists_lines_scalarLayout ['-'] 2 false value
    rw [Layout.behind_margin _ (by simp [shape]), Nat.add_comm] at moved
    exact moved
  | .sequence [] | .mapping [] => simp [itemLayout, shifted_of_ne_nil, margin]
  | .sequence (item :: items) =>
    have below : sequenceLayout spaced (column + 2) none (item :: items) =
        (sequenceLayout spaced 2 none (item :: items)).shift column := by
      rw [sequenceLayout_eq_shift, sequenceLayout_eq_shift spaced 2, Layout.shift_shift,
        Nat.add_comm]
    rw [itemLayout, itemLayout, below, Layout.shift_append]
    simp [shifted_of_ne_nil, margin]
  | .mapping (entry :: entries) =>
    have inner : mappingLayout spaced (margin column ++ ['-', ' ']) (column + 2)
        (entry :: entries) =
          (mappingLayout spaced ['-', ' '] 2 (entry :: entries)).shift column := by
      rw [mappingLayout_eq_behind, mappingLayout_eq_behind spaced ['-', ' '],
        Layout.shift_behind (by decide), Nat.add_comm]
    rw [itemLayout, itemLayout, inner, Layout.shift_append]
    cases spaced with
    | false => rfl
    | true => rw [if_pos rfl, Layout.shift_gap]; rfl

end

/-! ## Texts at columns -/

/-- The text with more spaces in front of every line that is not empty. -/
def indented (columns : Nat) (text : List Char) : List Char :=
  ['\n'].intercalate ((Text.lines text).map (shifted columns))

/-- The text with more spaces in front of every line that is not empty, but for the first line. -/
def indentedBelow (columns : Nat) (text : List Char) : List Char :=
  ['\n'].intercalate
    ((Text.lines text).take 1 ++ ((Text.lines text).drop 1).map (shifted columns))

/-- The lines of a text of lines, and the empty one behind its last line break. -/
theorem lines_flatMap {lines : List Line} (unbroken : ∀ line ∈ lines, '\n' ∉ line) :
    Text.lines (lines.flatMap (· ++ ['\n'])) = lines ++ [[]] := by
  induction lines with
  | nil => rfl
  | cons line lines ih =>
    rw [List.forall_mem_cons] at unbroken
    rw [List.flatMap_cons, List.append_assoc, List.singleton_append, Text.lines,
      Text.pieces_append_cons, Text.pieces_of_notMem unbroken.1, ← Text.lines, ih unbroken.2,
      List.singleton_append, List.cons_append]

theorem intercalate_append_empty (lines : List Line) :
    ['\n'].intercalate (lines ++ [[]]) = lines.flatMap (· ++ ['\n']) := by
  induction lines with
  | nil => rfl
  | cons line lines ih =>
    obtain ⟨next, others, shape⟩ := List.exists_cons_of_ne_nil (List.concat_ne_nil [] lines)
    rw [List.cons_append, shape, List.intercalate_cons_cons, ← shape, ih, List.flatMap_cons]

namespace Layout

/-- One layout is the other after a move of its text: both end with a line break, and keep it or
not. -/
structure MovesTo (move : List Char → List Char) (layout moved : Layout) : Prop where
  text : moved.text = move layout.text
  ends : ∃ body, layout.text = body ++ ['\n']
  keeps : moved.keeps = layout.keeps

/-- There are lines, and no line feeds on them. -/
structure HasLines (layout : Layout) : Prop where
  filled : layout.lines ≠ []
  unbroken : ∀ line ∈ layout.lines, '\n' ∉ line

variable {layout : Layout}

theorem ReadsAs.hasLines {upon : Bool} {indent column : Nat} {marks : List Mark}
    (read : layout.ReadsAs upon indent column marks) : layout.HasLines where
  filled := read.nonempty
  unbroken := by
    intro line member feed
    cases read.printable line member '\n' feed

theorem HasLines.behind_nil (h : layout.HasLines) (columns : Nat) :
    (layout.behind [] columns).HasLines := by
  obtain ⟨lines, keeps⟩ := layout
  obtain ⟨first, others, rfl⟩ := List.exists_cons_of_ne_nil h.filled
  obtain ⟨start, below⟩ := List.forall_mem_cons.1 h.unbroken
  refine ⟨List.cons_ne_nil _ _, List.forall_mem_cons.2 ⟨start, List.forall_mem_map.2 ?_⟩⟩
  intro line member
  have oneLine := below line member
  cases line with
  | nil => exact List.not_mem_nil
  | cons c line => simpa [shifted, margin] using oneLine

theorem HasLines.exists_text_eq (h : layout.HasLines) : ∃ body, layout.text = body ++ ['\n'] :=
  ⟨_, flatMap_append_lineFeed h.filled⟩

theorem HasLines.movesTo_shift (h : layout.HasLines) (columns : Nat) :
    layout.MovesTo (indented columns) (layout.shift columns) where
  text := by
    have bottom : [[]].map (shifted columns) = [[]] := rfl
    rw [indented, Layout.text, Layout.text, lines_flatMap h.unbroken, List.map_append, bottom,
      intercalate_append_empty, shift]
  ends := h.exists_text_eq
  keeps := rfl

theorem HasLines.movesTo_behind (h : layout.HasLines) (columns : Nat) :
    layout.MovesTo (indentedBelow columns) (layout.behind [] columns) where
  text := by
    have lines := lines_flatMap h.unbroken
    obtain ⟨first, others, shape⟩ := List.exists_cons_of_ne_nil h.filled
    have split : (Text.lines layout.text).take 1 ++
        ((Text.lines layout.text).drop 1).map (shifted columns) =
          first :: others.map (shifted columns) ++ [[]] := by
      rw [Layout.text, lines, shape]
      simp [shifted]
    rw [indentedBelow, split, intercalate_append_empty, Layout.text, behind, shape]
    rfl
  ends := h.exists_text_eq
  keeps := rfl

end Layout

theorem entryLayout_eq_shift (spaced : Bool) (column : Nat) (key : String) (node : Node) :
    entryLayout spaced (margin column) column key node =
      (entryLayout spaced [] 0 key node).shift column := by
  obtain ⟨chars, below, shape⟩ := exists_lines_entryLayout spaced [] 0 key node
  rw [entryLayout_eq_behind, Layout.behind_margin _ (by simp [shape])]

/-- **A part of a document is the same at all columns.**  Further to the right every line of an
entry or of a sequence that is not empty has more spaces in front; of a mapping behind a dash, every
line but the first.  The text is never empty and ends with a line break, which is kept or not at
all columns alike. -/
theorem movesTo_indented (spaced : Bool) (column more : Nat) :
    (∀ key node, (entryLayout spaced (margin column) column key node).MovesTo (indented more)
      (entryLayout spaced (margin (column + more)) (column + more) key node)) ∧
    (∀ item items, (sequenceLayout spaced column none (item :: items)).MovesTo (indented more)
      (sequenceLayout spaced (column + more) none (item :: items))) ∧
    ∀ entry entries, (mappingLayout spaced [] column (entry :: entries)).MovesTo
      (indentedBelow more) (mappingLayout spaced [] (column + more) (entry :: entries)) := by
  refine ⟨fun key node => ?_, fun item items => ?_, fun entry entries => ?_⟩
  · have lines := (readsAs_entryLayout spaced (.margin column) key node true).hasLines
    rw [entryLayout_eq_shift spaced (column + more), ← Layout.shift_shift, ← entryLayout_eq_shift]
    exact lines.movesTo_shift more
  · have lines := (readsAs_sequenceLayout spaced column (item :: items)
      (List.cons_ne_nil item items) none).hasLines
    rw [sequenceLayout_eq_shift spaced (column + more), ← Layout.shift_shift,
      ← sequenceLayout_eq_shift]
    exact lines.movesTo_shift more
  · have start := (readsAs_mappingLayout spaced (.margin 0) (entry :: entries)
      (List.cons_ne_nil entry entries) true).hasLines
    have further := (start.behind_nil column).movesTo_behind more
    rw [Layout.behind_behind] at further
    rw [mappingLayout_eq_behind, mappingLayout_eq_behind spaced [] (column + more)]
    exact further

/-- A mapping behind a dash, with an empty line in the block below its first key. -/
example :
    let laid (column : Nat) := (mappingLayout true [] column
      [("bash", .text "a\n\nb"), ("env", .mapping [("CI", .text "true")])]).text
    laid 2 = "bash: |-\n    a\n\n    b\n  env:\n    CI: 'true'\n".toList ∧
      laid 6 = indentedBelow 4 (laid 2) := by decide +kernel

end AzurePipelines.Yaml
