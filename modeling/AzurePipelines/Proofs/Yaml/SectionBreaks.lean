import AzurePipelines.Proofs.Yaml.Header
import Mathlib

/-!
# Sections one after another

Every section of a document is laid out as if it stood alone, and the only thing between two of them
is one line break, or nothing below a literal block that keeps its line breaks
(`render_eq_separated`).  Whether a section ends in such a block is a matter of its last scalar
alone, which is found by going from the last entry of a mapping or the last item of a sequence to
its own last (`Node.keptEnd?`), through whatever lies before it.  At the end of the section stand as
many line breaks as that scalar ends with, and one if there is no such block.
-/

namespace AzurePipelines

namespace Yaml

/-! ## Line breaks at the end -/

/-- The characters that some reader takes for the end of a line. -/
def lineBreaks : List Char := ['\n', '\r', '\x85', '\u2028', '\u2029']

/-- The text ends with a number of line feeds, and above them stands no line break. -/
def EndsWithFeeds (text : List Char) (count : Nat) : Prop :=
  ∃ body c, text = body ++ c :: List.replicate count '\n' ∧ c ∉ lineBreaks

theorem notMem_lineBreaks_of_isPrintable {c : Char} (printable : isPrintable c = true) :
    c ∉ lineBreaks := by
  intro member
  simp only [lineBreaks, List.mem_cons, List.not_mem_nil, or_false] at member
  rcases member with rfl | rfl | rfl | rfl | rfl <;> cases printable

theorem flatMap_replicate_nil (count : Nat) :
    (List.replicate count ([] : Line)).flatMap (· ++ ['\n']) = List.replicate count '\n' := by
  induction count with
  | zero => rfl
  | succ count ih => rw [List.replicate_succ, List.flatMap_cons, ih]; rfl

/-- Lines below which there are empty lines only: each of these is one more line feed. -/
theorem endsWithFeeds_flatMap (above : List Line) {last : Line} (filled : last ≠ [])
    (printable : ∀ c ∈ last, isPrintable c = true) (count : Nat) :
    EndsWithFeeds ((above ++ last :: List.replicate count []).flatMap (· ++ ['\n']))
      (count + 1) := by
  obtain ⟨start, c, rfl⟩ := List.eq_nil_or_concat last |>.resolve_left filled
  refine ⟨above.flatMap (· ++ ['\n']) ++ start, c, ?_, ?_⟩
  · rw [List.flatMap_append, List.flatMap_cons, flatMap_replicate_nil, List.replicate_succ]
    simp
  · exact notMem_lineBreaks_of_isPrintable (printable c (by simp))

/-- Among lines one of which is not empty, there is a last one that is not. -/
theorem exists_last_filled {lines : List Line} (filled : ∃ line ∈ lines, line ≠ []) :
    ∃ above last count, lines = above ++ last :: List.replicate count [] ∧ last ≠ [] := by
  induction lines using List.reverseRecOn with
  | nil => simp at filled
  | append_singleton lines line ih =>
    by_cases empty : line = []
    · have before : ∃ line ∈ lines, line ≠ [] := by
        obtain ⟨other, member, notEmpty⟩ := filled
        refine ⟨other, (List.mem_append.1 member).resolve_right fun isLine => ?_, notEmpty⟩
        exact notEmpty ((List.mem_singleton.1 isLine).trans empty)
      obtain ⟨above, last, count, rfl, notEmpty⟩ := ih before
      refine ⟨above, last, count + 1, ?_, notEmpty⟩
      rw [empty, List.replicate_succ']
      simp
    · exact ⟨lines, line, 0, rfl, empty⟩

/-! ## Blocks at the end of nodes -/

/-- The literal block that a scalar is written as, if it is written as one: not where it is typed,
and below a dash not where the block would have to state its indentation. -/
def literalBlock? (belowKey : Bool) (value : Scalar) : Option LiteralBlock :=
  let block := LiteralBlock.ofText value.text.toList
  if value.isTyped || styleOf value.text.toList != .literal || block.statesIndent && !belowKey then
    none
  else some block

/-- The text of a scalar that is written as a literal block which keeps its line breaks. -/
def keptText? (belowKey : Bool) (value : Scalar) : Option (List Char) :=
  if (literalBlock? belowKey value).any (·.keeps) then some value.text.toList else none

mutual

/-- The text of the last scalar of a node, if that is written as a literal block which keeps its
line breaks. -/
def Node.keptEnd? (belowKey : Bool) : Node → Option (List Char)
  | .scalar value => keptText? belowKey value
  | .sequence items => keptEndOfItems? items
  | .mapping entries => keptEndOfEntries? entries

def keptEndOfItems? : List Node → Option (List Char)
  | [] => none
  | [item] => item.keptEnd? false
  | _ :: item :: items => keptEndOfItems? (item :: items)

def keptEndOfEntries? : List (String × Node) → Option (List Char)
  | [] => none
  | [(_, node)] => node.keptEnd? true
  | _ :: entry :: entries => keptEndOfEntries? (entry :: entries)

end

theorem scalarLayout_of_literalBlock? {belowKey : Bool} {value : Scalar} {block : LiteralBlock}
    (h : literalBlock? belowKey value = some block) (lead : Line) (column : Nat) :
    scalarLayout lead column belowKey value =
        ⟨(lead ++ ' ' :: block.header) :: block.body column, block.keeps⟩ ∧
      styleOf value.text.toList = .literal ∧ block = .ofText value.text.toList := by
  unfold literalBlock? at h
  dsimp only at h
  split at h
  · cases h
  · rename_i isBlock
    obtain ⟨⟩ := h
    simp only [Bool.or_eq_true, not_or, Bool.not_eq_true, bne_iff_ne, ne_eq, not_not] at isBlock
    obtain ⟨⟨untyped, style⟩, stated⟩ := isBlock
    refine ⟨?_, style, rfl⟩
    rw [scalarLayout, untyped, if_neg Bool.false_ne_true]
    dsimp only
    rw [if_pos style, stated, if_neg Bool.false_ne_true]

theorem exists_scalarLayout_eq_line {belowKey : Bool} {value : Scalar}
    (h : literalBlock? belowKey value = none) (lead : Line) (column : Nat) :
    ∃ chars, scalarLayout lead column belowKey value = .line (lead ++ ' ' :: chars) := by
  unfold literalBlock? at h
  dsimp only at h
  split at h
  · rename_i isLine
    rw [scalarLayout]
    split
    · exact ⟨_, rfl⟩
    · dsimp only
      split
      · split
        · exact ⟨_, rfl⟩
        · simp_all
      · exact ⟨_, rfl⟩
  · cases h

namespace Layout

/-- The layout ends as `kept` tells: in a literal block with that text, which keeps its line breaks,
or in a line that is not empty. -/
structure Closes (layout : Layout) (kept : Option (List Char)) : Prop where
  keeps : layout.keeps = kept.isSome
  ends : ∃ above last count, layout.lines = above ++ last :: List.replicate count [] ∧
    last ≠ [] ∧
      match kept with
      | none => count = 0
      | some text => EndsWithFeeds text (count + 1)

namespace Closes

variable {upper lower : Layout} {kept : Option (List Char)}

theorem nonempty (h : lower.Closes kept) : lower.lines ≠ [] := by
  obtain ⟨above, last, count, shape, _⟩ := h.ends
  rw [shape]
  simp

/-- What stands above does not matter. -/
theorem below (h : lower.Closes kept) (upper : Layout) : (upper ++ lower).Closes kept where
  keeps := (keeps_append upper h.nonempty).trans h.keeps
  ends := by
    obtain ⟨above, last, count, shape, rest⟩ := h.ends
    exact ⟨upper.lines ++ above, last, count, by rw [lines_append, shape, List.append_assoc], rest⟩

theorem line {text : Line} (filled : text ≠ []) : (Layout.line text).Closes none :=
  ⟨rfl, [], text, 0, rfl, filled, rfl⟩

end Closes

end Layout

namespace LiteralBlock

variable {text : List Char} {above : List Line} {last : Line} {count : Nat}

theorem exists_last_line (style : styleOf text = .literal) :
    ∃ above last count, (ofText text).lines = above ++ last :: List.replicate count [] ∧
      last ≠ [] := by
  obtain ⟨count, first, others, lines, visible⟩ :=
    exists_first_of_startsCleanly (startsCleanly_lines style)
  refine exists_last_filled ⟨first, by simp [lines], ?_⟩
  rintro rfl
  cases visible

/-- A text whose line breaks are kept ends with those of its empty lines and one more. -/
theorem endsWithFeeds (style : styleOf text = .literal) (keeps : (ofText text).keeps = true)
    (lines : (ofText text).lines = above ++ last :: List.replicate count [])
    (filled : last ≠ []) : EndsWithFeeds text (count + 1) := by
  have whole := intercalate_lines text
  rw [keeps, if_pos rfl, ← flatMap_append_lineFeed (lines_ne_nil text), lines] at whole
  rw [← whole]
  exact endsWithFeeds_flatMap above filled
    (fun c member => isPrintable_of_mem_lines style (by simp [lines]) member) count

/-- A text whose line breaks are not kept has no empty lines at its end. -/
theorem count_eq_zero (style : styleOf text = .literal) (keeps : (ofText text).keeps = false)
    (lines : (ofText text).lines = above ++ last :: List.replicate count [])
    (filled : last ≠ []) : count = 0 := by
  have stripped := dropWhile_reverse_lines style keeps 0
  rw [List.replicate_zero, List.append_nil, lines] at stripped
  have left : ((above ++ last :: List.replicate count []).reverse.dropWhile List.isEmpty).reverse =
      above ++ [last] := by
    rw [List.reverse_append, List.reverse_cons, List.reverse_replicate, List.append_assoc,
      List.dropWhile_append_of_pos (by simp), List.singleton_append,
      List.dropWhile_cons_of_neg (by simp [filled]), List.reverse_cons, List.reverse_reverse]
  have lengths := congrArg List.length (stripped.symm.trans left)
  simpa using lengths

theorem body_eq (lines : (ofText text).lines = above ++ last :: List.replicate count [])
    (filled : last ≠ []) (column : Nat) :
    (ofText text).body column = (above.map fun line =>
      if line.isEmpty then [] else margin column ++ line) ++
        (margin column ++ last) :: List.replicate count [] := by
  have notEmpty : last.isEmpty = false := by simp [filled]
  rw [body, lines, List.map_append, List.map_cons, List.map_replicate, notEmpty]
  rfl

end LiteralBlock

/-- A scalar ends in a block of its text, or in a line that is not empty. -/
theorem closes_scalarLayout (lead : Line) (column : Nat) (belowKey : Bool) (value : Scalar) :
    (scalarLayout lead column belowKey value).Closes (keptText? belowKey value) := by
  cases isBlock : literalBlock? belowKey value with
  | none =>
    obtain ⟨chars, shape⟩ := exists_scalarLayout_eq_line isBlock lead column
    rw [shape, keptText?, isBlock]
    exact .line (by simp)
  | some block =>
    obtain ⟨shape, style, rfl⟩ := scalarLayout_of_literalBlock? isBlock lead column
    obtain ⟨above, last, count, lines, filled⟩ := LiteralBlock.exists_last_line style
    have shown : margin column ++ last ≠ [] := by simp [filled]
    rw [shape, keptText?, isBlock, Option.any_some, LiteralBlock.body_eq lines filled column]
    cases keeps : (LiteralBlock.ofText value.text.toList).keeps with
    | true =>
      exact ⟨rfl, _ :: _, _, count, rfl, shown, LiteralBlock.endsWithFeeds style keeps lines filled⟩
    | false =>
      exact ⟨rfl, _ :: _, _, count, rfl, shown, LiteralBlock.count_eq_zero style keeps lines filled⟩

/-! ## Nodes -/

mutual

/-- An entry ends as its value does. -/
theorem closes_entryLayout (spaced : Bool) (lead : Line) (column : Nat) (key : String)
    (node : Node) : (entryLayout spaced lead column key node).Closes (node.keptEnd? true) := by
  match node with
  | .scalar value => exact closes_scalarLayout _ _ true value
  | .sequence [] | .mapping [] => exact .line (by simp)
  | .sequence (item :: items) =>
    exact (closes_sequenceLayout spaced column none (item :: items)
      (List.cons_ne_nil item items)).below _
  | .mapping (entry :: entries) =>
    exact (closes_mappingLayout spaced (margin (column + 2)) (column + 2) (entry :: entries)
      (List.cons_ne_nil entry entries)).below _

theorem closes_mappingLayout (spaced : Bool) (lead : Line) (column : Nat)
    (entries : List (String × Node)) (nonempty : entries ≠ []) :
    (mappingLayout spaced lead column entries).Closes (keptEndOfEntries? entries) := by
  match entries with
  | [(key, node)] =>
    have closes := closes_entryLayout spaced lead column key node
    rwa [mappingLayout, mappingLayout, Layout.append_empty]
  | (key, node) :: next :: others =>
    exact (closes_mappingLayout spaced (margin column) column (next :: others)
      (List.cons_ne_nil next others)).below _

theorem closes_sequenceLayout (spaced : Bool) (column : Nat) (upon : Option Bool)
    (items : List Node) (nonempty : items ≠ []) :
    (sequenceLayout spaced column upon items).Closes (keptEndOfItems? items) := by
  match items with
  | [item] =>
    have closes := closes_itemLayout spaced column upon item
    rwa [sequenceLayout, sequenceLayout, Layout.append_empty]
  | item :: next :: others =>
    exact (closes_sequenceLayout spaced column _ (next :: others)
      (List.cons_ne_nil next others)).below _

theorem closes_itemLayout (spaced : Bool) (column : Nat) (upon : Option Bool) (item : Node) :
    (itemLayout spaced column upon item).Closes (item.keptEnd? false) := by
  match item with
  | .scalar value => exact closes_scalarLayout _ _ false value
  | .sequence [] | .mapping [] => exact .line (by simp)
  | .sequence (item :: items) =>
    exact (closes_sequenceLayout spaced (column + 2) none (item :: items)
      (List.cons_ne_nil item items)).below _
  | .mapping (entry :: entries) =>
    exact (closes_mappingLayout spaced (margin column ++ ['-', ' ']) (column + 2)
      (entry :: entries) (List.cons_ne_nil entry entries)).below _

end

/-! ## Sections -/

/-- The text of one section, as a document of its own. -/
def sectionText (spaced : Bool) (key : String) (node : Node) : List Char :=
  (render [] spaced [(key, node)]).toList

/-- The texts of sections, with a line break between two unless the one above ends in a literal
block that keeps its line breaks. -/
def separated (spaced : Bool) : List (String × Node) → List Char
  | [] => []
  | [(key, node)] => sectionText spaced key node
  | (key, node) :: next :: sections =>
    sectionText spaced key node ++ (if (node.keptEnd? true).isSome then [] else ['\n']) ++
      separated spaced (next :: sections)

@[simp] theorem Layout.text_append (above below : Layout) :
    (above ++ below).text = above.text ++ below.text := by
  simp [Layout.text]

theorem sectionText_eq (spaced : Bool) (key : String) (node : Node) :
    sectionText spaced key node = (entryLayout spaced [] 0 key node).text := by
  have entry := closes_entryLayout spaced [] 0 key node
  have shape : sectionsLayout spaced none [(key, node)] = entryLayout spaced [] 0 key node := by
    rw [sectionsLayout, sectionsLayout, Layout.append_empty]
    exact Layout.empty_append entry.nonempty
  rw [sectionText, toList_render_nil, shape, Layout.text]

theorem text_sectionsLayout (spaced : Bool) (upon : Option Bool) (key : String) (node : Node)
    (sections : List (String × Node)) :
    (sectionsLayout spaced upon ((key, node) :: sections)).text =
      (Layout.gap upon).text ++ separated spaced ((key, node) :: sections) := by
  induction sections generalizing upon key node with
  | nil =>
    rw [sectionsLayout, sectionsLayout, Layout.append_empty, Layout.text_append, separated,
      sectionText_eq]
  | cons next sections ih =>
    have entry := closes_entryLayout spaced [] 0 key node
    have keeps : (Layout.gap upon ++ entryLayout spaced [] 0 key node).keeps =
        (node.keptEnd? true).isSome :=
      (Layout.keeps_append _ entry.nonempty).trans entry.keeps
    have between : (Layout.gap (some (node.keptEnd? true).isSome)).text =
        if (node.keptEnd? true).isSome then [] else ['\n'] := by
      cases (node.keptEnd? true).isSome <;> rfl
    rw [sectionsLayout, Layout.text_append, Layout.text_append, keeps, ih, between, separated,
      sectionText_eq, List.append_assoc, List.append_assoc]

/-- What a section ends with: one line break, or as many as the block that it ends in. -/
def EndsAs (text : List Char) : Option (List Char) → Prop
  | none => EndsWithFeeds text 1
  | some kept => ∃ count, EndsWithFeeds kept count ∧ EndsWithFeeds text count

theorem sectionText_eq_cons (spaced : Bool) (key : String) (node : Node) :
    ∃ c rest, sectionText spaced key node = c :: rest ∧ c ∉ lineBreaks := by
  obtain ⟨chars, below, lines⟩ := exists_lines_entryLayout spaced [] 0 key node
  obtain ⟨c, rest, shape, _⟩ := exists_inline_eq_cons key
  have inKey : c ∈ inline key.toList := by simp [shape]
  have written : sectionText spaced key node =
      c :: (rest ++ ':' :: chars ++ ['\n'] ++ below.flatMap (· ++ ['\n'])) := by
    rw [sectionText_eq, Layout.text, lines, shape]
    simp
  exact ⟨c, _, written, notMem_lineBreaks_of_isPrintable (isPrintable_of_mem_inline inKey)⟩

theorem endsAs_sectionText (spaced : Bool) (key : String) (node : Node) :
    EndsAs (sectionText spaced key node) (node.keptEnd? true) := by
  have read := readsAs_entryLayout spaced (.margin 0) key node true
  obtain ⟨above, last, count, lines, filled, ends⟩ := (closes_entryLayout spaced [] 0 key node).ends
  have printable : ∀ c ∈ last, isPrintable c = true := by
    apply read.printable
    change last ∈ (entryLayout spaced [] 0 key node).lines
    simp [lines]
  have written : EndsWithFeeds (sectionText spaced key node) (count + 1) := by
    rw [sectionText_eq, Layout.text, lines]
    exact endsWithFeeds_flatMap above filled printable count
  cases kept : node.keptEnd? true with
  | none =>
    rw [kept] at ends
    obtain rfl : count = 0 := ends
    exact written
  | some text =>
    rw [kept] at ends
    exact ⟨count + 1, ends, written⟩

/-- **Sections are written one by one.**  The text of a document without a header is that of its
sections, each as if it stood alone, with one line break between two unless the one above ends in a
literal block that keeps its line breaks.  A section never starts with a line break, and ends with
exactly one, or with exactly those of such a block. -/
theorem render_eq_separated (spaced : Bool) (sections : List (String × Node)) :
    (render [] spaced sections).toList = separated spaced sections ∧
      ∀ key node, (∃ c rest, sectionText spaced key node = c :: rest ∧ c ∉ lineBreaks) ∧
        EndsAs (sectionText spaced key node) (node.keptEnd? true) := by
  refine ⟨?_, fun key node => ⟨sectionText_eq_cons spaced key node,
    endsAs_sectionText spaced key node⟩⟩
  rw [toList_render_nil, ← Layout.text]
  cases sections with
  | nil => rfl
  | cons entry sections => exact text_sectionsLayout spaced none entry.1 entry.2 sections

/-- A block deep in the first of two sections keeps an empty line of its own, and none is added. -/
example : separated true
    [("steps", .sequence [.mapping [("bash", .text "a\n\n")]]), ("pool", .text "main")] =
      "steps:\n- bash: |+\n    a\n\npool: main\n".toList := by decide +kernel

end Yaml

end AzurePipelines
