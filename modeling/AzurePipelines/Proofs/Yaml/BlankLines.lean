import AzurePipelines.Proofs.Yaml.SectionBreaks
import Mathlib

/-!
# Empty lines between items

Documents can be laid out with empty lines between items, or without.  The lines without them are
`markedLines`, each with what it is to the lines around it (`LineKind`); with them, there is an
empty line above every line that holds the dash of an item with entries, other than the first of its
sequence, unless the line breaks of a literal block are kept right above it (`spread`).  This is all
that the option does to a document (`Document.toYaml_spread`): no empty line comes to stand
elsewhere, in a literal block least of all, and every other line stays as it is.
-/

namespace AzurePipelines

namespace Yaml

/-! ## Lines and what they are -/

/-- What a line is to the lines around it. -/
inductive LineKind where
  | ordinary
  /-- The line holds the dash of an item with entries, which is not the first of its sequence. -/
  | laterItem
  /-- The line holds text of a literal block.  If `kept`, it is the last of the block, and the line
  breaks below it belong to the text. -/
  | blockText (kept : Bool)
deriving DecidableEq

structure MarkedLine where
  kind : LineKind
  text : Line

/-- The kind of the first line of an item. -/
def itemKind (later : Bool) : LineKind := if later then .laterItem else .ordinary

/-- The lines with an empty line above each later item, unless line breaks are kept right above
it; `above` is the kind of the line above them all. -/
def spread (above : LineKind) : List MarkedLine → List Line
  | [] => []
  | line :: lines =>
    (if line.kind = .laterItem ∧ above ≠ .blockText true then [[]] else []) ++
      line.text :: spread line.kind lines

/-- The kind of the last of the lines, or of the one above them. -/
def lastKind (above : LineKind) : List MarkedLine → LineKind
  | [] => above
  | line :: lines => lastKind line.kind lines

/-- The lines of a literal block. -/
def markedBlock (block : LiteralBlock) (column : Nat) : List MarkedLine :=
  (block.body column).dropLast.map (⟨.blockText false, ·⟩) ++
    (block.body column).getLast?.toList.map (⟨.blockText block.keeps, ·⟩)

/-- The lines of a scalar. -/
def markedScalar (later : Bool) (lead : Line) (column : Nat) (belowKey : Bool) (value : Scalar) :
    List MarkedLine :=
  match literalBlock? belowKey value with
  | none => (scalarLayout lead column belowKey value).lines.map (⟨itemKind later, ·⟩)
  | some block => ⟨itemKind later, lead ++ ' ' :: block.header⟩ :: markedBlock block column

mutual

/-- The lines of an entry, which stands on the line of the dash of a later item if `later`. -/
def markedEntry (later : Bool) (lead : Line) (column : Nat) (key : String) :
    Node → List MarkedLine
  | .scalar value => markedScalar later (lead ++ inline key.toList ++ [':']) (column + 2) true value
  | .sequence [] => [⟨itemKind later, lead ++ inline key.toList ++ ": []".toList⟩]
  | .mapping [] => [⟨itemKind later, lead ++ inline key.toList ++ ": \x7b\x7d".toList⟩]
  | .sequence (item :: items) =>
    ⟨itemKind later, lead ++ inline key.toList ++ [':']⟩ :: markedItems column false (item :: items)
  | .mapping (entry :: entries) =>
    ⟨itemKind later, lead ++ inline key.toList ++ [':']⟩ ::
      markedEntries false (margin (column + 2)) (column + 2) (entry :: entries)

def markedEntries (later : Bool) (lead : Line) (column : Nat) :
    List (String × Node) → List MarkedLine
  | [] => []
  | (key, node) :: entries =>
    markedEntry later lead column key node ++ markedEntries false (margin column) column entries

/-- The lines of items; `later` tells if there are items above them. -/
def markedItems (column : Nat) (later : Bool) : List Node → List MarkedLine
  | [] => []
  | item :: items => markedItem column later item ++ markedItems column true items

def markedItem (column : Nat) (later : Bool) : Node → List MarkedLine
  | .scalar value => markedScalar false (margin column ++ ['-']) (column + 2) false value
  | .sequence [] => [⟨.ordinary, margin column ++ "- []".toList⟩]
  | .mapping [] => [⟨.ordinary, margin column ++ "- \x7b\x7d".toList⟩]
  | .sequence (item :: items) =>
    ⟨.ordinary, margin column ++ ['-']⟩ :: markedItems (column + 2) false (item :: items)
  | .mapping (entry :: entries) =>
    markedEntries later (margin column ++ ['-', ' ']) (column + 2) (entry :: entries)

end

/-- The lines of sections; `upon` tells whether the section above, if there is one, keeps line
breaks. -/
def markedSections (upon : Option Bool) : List (String × Node) → List MarkedLine
  | [] => []
  | (key, node) :: sections =>
    let entry := markedEntry false [] 0 key node
    (Layout.gap upon).lines.map (⟨.ordinary, ·⟩) ++ entry ++
      markedSections (some (decide (lastKind .ordinary entry = .blockText true))) sections

/-- The lines of a document below its header. -/
def markedLines (header : List String) (sections : List (String × Node)) : List MarkedLine :=
  (headerLines header).map (⟨.ordinary, ·⟩) ++ markedSections none sections

/-- The text of lines. -/
def textOfLines (lines : List Line) : String := .ofList (lines.flatMap (· ++ ['\n']))

/-! ## Spreading lines -/

variable {above : LineKind} {marked others : List MarkedLine}

theorem lastKind_append (above : LineKind) (marked others : List MarkedLine) :
    lastKind above (marked ++ others) = lastKind (lastKind above marked) others := by
  induction marked generalizing above with
  | nil => rfl
  | cons line marked ih => exact ih line.kind

theorem lastKind_of_ne_nil (nonempty : marked ≠ []) (above other : LineKind) :
    lastKind above marked = lastKind other marked := by
  cases marked with
  | nil => exact absurd rfl nonempty
  | cons line marked => rfl

theorem spread_append (above : LineKind) (marked others : List MarkedLine) :
    spread above (marked ++ others) =
      spread above marked ++ spread (lastKind above marked) others := by
  induction marked generalizing above with
  | nil => rfl
  | cons line marked ih =>
    rw [List.cons_append, spread, spread, ih, lastKind, List.append_assoc, List.cons_append]

/-- Where no later item starts, nothing is spread. -/
theorem spread_eq_map (above : LineKind) (none : ∀ line ∈ marked, line.kind ≠ .laterItem) :
    spread above marked = marked.map (·.text) := by
  induction marked generalizing above with
  | nil => rfl
  | cons line marked ih =>
    rw [List.forall_mem_cons] at none
    rw [spread, if_neg fun both => none.1 both.1, ih line.kind none.2, List.nil_append,
      List.map_cons]

/-! Lines that are all of one kind. -/

theorem ordinary_ne_laterItem : LineKind.ordinary ≠ .laterItem := nofun

theorem blockText_ne_laterItem (kept : Bool) : LineKind.blockText kept ≠ .laterItem := nofun

theorem map_text_map_mk (kind : LineKind) (lines : List Line) :
    (lines.map (MarkedLine.mk kind)).map (·.text) = lines := by
  rw [List.map_map]
  exact List.map_id lines

theorem kind_of_mem_map_mk {kind : LineKind} {lines : List Line} {line : MarkedLine}
    (member : line ∈ lines.map (MarkedLine.mk kind)) : line.kind = kind := by
  obtain ⟨_, _, rfl⟩ := List.mem_map.1 member
  rfl

theorem ne_laterItem_of_mem_map_mk {kind : LineKind} (other : kind ≠ .laterItem)
    (lines : List Line) : ∀ line ∈ lines.map (MarkedLine.mk kind), line.kind ≠ .laterItem :=
  fun _ member isLater => other (kind_of_mem_map_mk member ▸ isLater)

theorem spread_map_mk {kind : LineKind} (other : kind ≠ .laterItem) (above : LineKind)
    (lines : List Line) : spread above (lines.map (MarkedLine.mk kind)) = lines := by
  rw [spread_eq_map above (ne_laterItem_of_mem_map_mk other lines), map_text_map_mk]

/-- The line starts with the dash of an item that goes on behind it. -/
def HoldsDash (line : Line) : Prop := ∃ column rest, line = margin column ++ '-' :: ' ' :: rest

theorem HoldsDash.append {line : Line} (h : HoldsDash line) (rest : Line) :
    HoldsDash (line ++ rest) := by
  obtain ⟨column, inner, rfl⟩ := h
  exact ⟨column, inner ++ rest, by simp⟩

/-- A layout without and with empty lines between items: the lines of the one, and the lines spread
below a line of the kind `above`. -/
structure Spreads (above : LineKind) (compact spaced : Layout) (marked : List MarkedLine) :
    Prop where
  nonempty : marked ≠ []
  lines : compact.lines = marked.map (·.text)
  spread : spaced.lines = spread above marked
  keeps : compact.keeps = decide (lastKind above marked = .blockText true)
  keeps_spaced : spaced.keeps = decide (lastKind above marked = .blockText true)
  dashes : ∀ line ∈ marked, line.kind = .laterItem → HoldsDash line.text

namespace Spreads

variable {compact compact' spaced spaced' : Layout}

theorem lines_ne_nil (h : Spreads above compact spaced marked) : compact.lines ≠ [] := by
  rw [h.lines, ne_eq, List.map_eq_nil_iff]
  exact h.nonempty

theorem spaced_lines_ne_nil (h : Spreads above compact spaced marked) : spaced.lines ≠ [] := by
  obtain ⟨line, rest, rfl⟩ := List.exists_cons_of_ne_nil h.nonempty
  rw [h.spread, Yaml.spread]
  simp

theorem append (h : Spreads above compact spaced marked)
    (next : Spreads (lastKind above marked) compact' spaced' others) :
    Spreads above (compact ++ compact') (spaced ++ spaced') (marked ++ others) where
  nonempty := List.append_ne_nil_of_left_ne_nil h.nonempty others
  lines := by rw [Layout.lines_append, h.lines, next.lines, List.map_append]
  spread := by rw [Layout.lines_append, h.spread, next.spread, spread_append]
  keeps := by rw [Layout.keeps_append _ next.lines_ne_nil, next.keeps, lastKind_append]
  keeps_spaced := by
    rw [Layout.keeps_append _ next.spaced_lines_ne_nil, next.keeps_spaced, lastKind_append]
  dashes := List.forall_mem_append.2 ⟨h.dashes, next.dashes⟩

end Spreads

theorem Layout.append_assoc (first second third : Layout) :
    (first ++ second) ++ third = first ++ (second ++ third) := by
  obtain ⟨lines, keeps⟩ := first
  obtain ⟨lines', keeps'⟩ := second
  obtain ⟨lines'', keeps''⟩ := third
  change (⟨(lines ++ lines') ++ lines'', if lines''.isEmpty then
      (if lines'.isEmpty then keeps else keeps') else keeps''⟩ : Layout) =
    ⟨lines ++ (lines' ++ lines''), if (lines' ++ lines'').isEmpty then keeps
      else if lines''.isEmpty then keeps' else keeps''⟩
  cases lines' <;> cases lines'' <;> simp

theorem Layout.cons_eq_append (first : Line) {lines : List Line} (nonempty : lines ≠ [])
    (keeps : Bool) : (⟨first :: lines, keeps⟩ : Layout) = .line first ++ ⟨lines, keeps⟩ := by
  change _ = (⟨first :: lines, if lines.isEmpty then false else keeps⟩ : Layout)
  rw [List.isEmpty_eq_false_iff.2 nonempty, if_neg Bool.false_ne_true]

/-! ## Lines set off -/

/-- The empty line above the first line of a later item. -/
def setOff (above : LineKind) (later : Bool) : Layout :=
  if later && above != .blockText true then .line [] else .empty

/-- What a layout is told of the item above: nothing if there is none, or else whether line breaks
are kept right above. -/
def uponOf (above : LineKind) (later : Bool) : Option Bool :=
  if later then some (decide (above = .blockText true)) else none

theorem gap_uponOf (above : LineKind) (later : Bool) :
    Layout.gap (uponOf above later) = setOff above later := by
  cases later with
  | false => rfl
  | true =>
    by_cases kept : above = .blockText true
    · subst kept
      rfl
    · simp [Layout.gap, uponOf, setOff, kept]

theorem Spreads.of_setOff_false {compact spaced : Layout} {other : LineKind}
    (h : Spreads above compact (setOff other false ++ spaced) marked) :
    Spreads above compact spaced marked := by
  have nonempty : spaced.lines ≠ [] := h.spaced_lines_ne_nil
  have same : setOff other false ++ spaced = spaced := Layout.empty_append nonempty
  rwa [same] at h

theorem spreads_line (above : LineKind) (later : Bool) {text : Line}
    (holds : later = true → HoldsDash text) :
    Spreads above (.line text) (setOff above later ++ .line text) [⟨itemKind later, text⟩] where
  nonempty := List.cons_ne_nil _ _
  lines := rfl
  spread := by
    cases later with
    | false => rfl
    | true =>
      by_cases kept : above = .blockText true
      · subst kept
        rfl
      · simp [setOff, Yaml.spread, itemKind, kept]
  keeps := by cases later <;> rfl
  keeps_spaced := by
    rw [Layout.keeps_append _ (List.cons_ne_nil _ _)]
    cases later <;> rfl
  dashes := by
    intro line member isLater
    obtain rfl := List.mem_singleton.1 member
    apply holds
    cases later with
    | false => cases isLater
    | true => rfl

/-- A line above more lines. -/
theorem spreads_line_append (above : LineKind) (later : Bool) {text : Line}
    (holds : later = true → HoldsDash text) {compact spaced : Layout}
    (next : Spreads (itemKind later) compact spaced marked) :
    Spreads above (.line text ++ compact) (setOff above later ++ (.line text ++ spaced))
      (⟨itemKind later, text⟩ :: marked) := by
  rw [← Layout.append_assoc]
  exact (spreads_line above later holds).append next

theorem spreads_block (above : LineKind) {block : LiteralBlock} (nonempty : block.lines ≠ [])
    (column : Nat) :
    Spreads above ⟨block.body column, block.keeps⟩ ⟨block.body column, block.keeps⟩
      (markedBlock block column) := by
  have filled : block.body column ≠ [] := by simpa [LiteralBlock.body] using nonempty
  obtain ⟨lines, last, shape⟩ := List.eq_nil_or_concat _ |>.resolve_left filled
  have marked : markedBlock block column =
      lines.map (⟨.blockText false, ·⟩) ++ [⟨.blockText block.keeps, last⟩] := by
    rw [markedBlock, shape]
    simp
  have texts : block.body column = (markedBlock block column).map (·.text) := by
    rw [marked, shape]
    simp [Function.comp_def]
  have none : ∀ line ∈ markedBlock block column, line.kind ≠ .laterItem := by
    rw [marked]
    exact List.forall_mem_append.2
      ⟨ne_laterItem_of_mem_map_mk (blockText_ne_laterItem false) lines,
        ne_laterItem_of_mem_map_mk (blockText_ne_laterItem block.keeps) [last]⟩
  have ends : block.keeps =
      decide (lastKind above (markedBlock block column) = .blockText true) := by
    rw [marked, lastKind_append, lastKind, lastKind]
    cases block.keeps <;> rfl
  exact ⟨by simp [marked], texts, (spread_eq_map above none).symm ▸ texts, ends, ends,
    fun line member isLater => absurd isLater (none line member)⟩

theorem spreads_scalar (above : LineKind) (later : Bool) {lead : Line}
    (holds : later = true → HoldsDash lead) (column : Nat) (belowKey : Bool) (value : Scalar) :
    Spreads above (scalarLayout lead column belowKey value)
      (setOff above later ++ scalarLayout lead column belowKey value)
      (markedScalar later lead column belowKey value) := by
  rw [markedScalar]
  cases isBlock : literalBlock? belowKey value with
  | none =>
    obtain ⟨chars, shape⟩ := exists_scalarLayout_eq_line isBlock lead column
    rw [shape]
    exact spreads_line above later fun isLater => (holds isLater).append _
  | some block =>
    obtain ⟨shape, _, rfl⟩ := scalarLayout_of_literalBlock? isBlock lead column
    have nonempty := LiteralBlock.lines_ne_nil value.text.toList
    have next := spreads_block (itemKind later) nonempty column
    rw [shape, Layout.cons_eq_append _ next.lines_ne_nil]
    exact spreads_line_append above later (fun isLater => (holds isLater).append _) next

/-! ## Nodes -/

mutual

theorem spreads_entry (above : LineKind) (later : Bool) (lead : Line)
    (holds : later = true → HoldsDash lead) (column : Nat) (key : String) (node : Node) :
    Spreads above (entryLayout false lead column key node)
      (setOff above later ++ entryLayout true lead column key node)
      (markedEntry later lead column key node) := by
  have holdsKey (rest : Line) (isLater : later = true) :
      HoldsDash (lead ++ inline key.toList ++ rest) := by
    rw [List.append_assoc]
    exact (holds isLater).append _
  match node with
  | .scalar value => exact spreads_scalar above later (holdsKey _) (column + 2) true value
  | .sequence [] | .mapping [] => exact spreads_line above later (holdsKey _)
  | .sequence (item :: items) =>
    exact spreads_line_append above later (holdsKey _)
      (spreads_items (itemKind later) false column (item :: items) (List.cons_ne_nil item items))
  | .mapping (entry :: entries) =>
    exact spreads_line_append above later (holdsKey _)
      (spreads_entries (itemKind later) false (margin (column + 2)) nofun (column + 2)
        (entry :: entries) (List.cons_ne_nil entry entries)).of_setOff_false

theorem spreads_entries (above : LineKind) (later : Bool) (lead : Line)
    (holds : later = true → HoldsDash lead) (column : Nat) (entries : List (String × Node))
    (nonempty : entries ≠ []) :
    Spreads above (mappingLayout false lead column entries)
      (setOff above later ++ mappingLayout true lead column entries)
      (markedEntries later lead column entries) := by
  match entries with
  | [(key, node)] =>
    have only := spreads_entry above later lead holds column key node
    simp only [mappingLayout, markedEntries, Layout.append_empty, List.append_nil]
    exact only
  | (key, node) :: next :: others =>
    have first := spreads_entry above later lead holds column key node
    have rest := (spreads_entries (lastKind above (markedEntry later lead column key node)) false
      (margin column) nofun column (next :: others)
      (List.cons_ne_nil next others)).of_setOff_false
    have both := first.append rest
    rw [Layout.append_assoc] at both
    exact both

theorem spreads_items (above : LineKind) (later : Bool) (column : Nat) (items : List Node)
    (nonempty : items ≠ []) :
    Spreads above (sequenceLayout false column (uponOf above later) items)
      (sequenceLayout true column (uponOf above later) items)
      (markedItems column later items) := by
  match items with
  | [item] =>
    have only := spreads_item above later column item
    simp only [sequenceLayout, markedItems, Layout.append_empty, List.append_nil]
    exact only
  | item :: next :: others =>
    have first := spreads_item above later column item
    have rest := spreads_items (lastKind above (markedItem column later item)) true column
      (next :: others) (List.cons_ne_nil next others)
    have both := first.append rest
    have shape (spaced : Bool) :
        sequenceLayout spaced column (uponOf above later) (item :: next :: others) =
          itemLayout spaced column (uponOf above later) item ++ sequenceLayout spaced column
            (some (itemLayout spaced column (uponOf above later) item).keeps) (next :: others) := by
      rw [sequenceLayout]
    rw [shape false, shape true, first.keeps, first.keeps_spaced]
    exact both

theorem spreads_item (above : LineKind) (later : Bool) (column : Nat) (item : Node) :
    Spreads above (itemLayout false column (uponOf above later) item)
      (itemLayout true column (uponOf above later) item)
      (markedItem column later item) := by
  match item with
  | .scalar value =>
    exact (spreads_scalar above false nofun (column + 2) false value).of_setOff_false
  | .sequence [] | .mapping [] =>
    exact (spreads_line above false nofun).of_setOff_false
  | .sequence (item :: items) =>
    exact (spreads_line_append above false nofun
      (spreads_items .ordinary false (column + 2) (item :: items)
        (List.cons_ne_nil item items))).of_setOff_false
  | .mapping (entry :: entries) =>
    have dash (isLater : later = true) : HoldsDash (margin column ++ ['-', ' ']) :=
      ⟨column, [], rfl⟩
    have inside := spreads_entries above later (margin column ++ ['-', ' ']) dash (column + 2)
      (entry :: entries) (List.cons_ne_nil entry entries)
    have compact : itemLayout false column (uponOf above later) (.mapping (entry :: entries)) =
        mappingLayout false (margin column ++ ['-', ' ']) (column + 2) (entry :: entries) :=
      Layout.empty_append inside.lines_ne_nil
    rw [compact, itemLayout, if_pos rfl, gap_uponOf]
    exact inside

end

/-! ## Documents -/

/-- Sections have no later items on their own level, and the empty lines between them are always
there. -/
theorem spread_sections (above : LineKind) (upon : Option Bool) (sections : List (String × Node)) :
    (sectionsLayout false upon sections).lines = (markedSections upon sections).map (·.text) ∧
      (sectionsLayout true upon sections).lines = spread above (markedSections upon sections) ∧
      ∀ line ∈ markedSections upon sections, line.kind = .laterItem → HoldsDash line.text := by
  induction sections generalizing above upon with
  | nil => exact ⟨rfl, rfl, List.forall_mem_nil _⟩
  | cons entry sections ih =>
    obtain ⟨key, node⟩ := entry
    let gap : List MarkedLine := (Layout.gap upon).lines.map (⟨.ordinary, ·⟩)
    let marked := markedEntry false [] 0 key node
    have laid : Spreads (lastKind above gap) (entryLayout false [] 0 key node)
        (entryLayout true [] 0 key node) marked :=
      (spreads_entry (lastKind above gap) false [] nofun 0 key node).of_setOff_false
    have gapLines : gap.map (·.text) = (Layout.gap upon).lines := map_text_map_mk _ _
    have gapSpread : spread above gap = (Layout.gap upon).lines :=
      spread_map_mk ordinary_ne_laterItem above _
    have kept : lastKind (lastKind above gap) marked = lastKind .ordinary marked :=
      lastKind_of_ne_nil laid.nonempty _ _
    have keeps : (Layout.gap upon ++ entryLayout false [] 0 key node).keeps =
        decide (lastKind .ordinary marked = .blockText true) := by
      rw [Layout.keeps_append _ laid.lines_ne_nil, laid.keeps, kept]
    have keeps_spaced : (Layout.gap upon ++ entryLayout true [] 0 key node).keeps =
        decide (lastKind .ordinary marked = .blockText true) := by
      rw [Layout.keeps_append _ laid.spaced_lines_ne_nil, laid.keeps_spaced, kept]
    obtain ⟨compact, spaced, dashes⟩ := ih (lastKind .ordinary marked)
      (some (decide (lastKind .ordinary marked = .blockText true)))
    have whole : markedSections upon ((key, node) :: sections) = gap ++ marked ++
        markedSections (some (decide (lastKind .ordinary marked = .blockText true))) sections := rfl
    rw [whole]
    refine ⟨?_, ?_, List.forall_mem_append.2 ⟨List.forall_mem_append.2 ⟨?_, laid.dashes⟩, dashes⟩⟩
    · rw [sectionsLayout, keeps, Layout.lines_append, Layout.lines_append, compact, laid.lines,
        List.map_append, List.map_append, gapLines]
    · rw [sectionsLayout, keeps_spaced, Layout.lines_append, Layout.lines_append, spaced,
        laid.spread, spread_append, spread_append, gapSpread, lastKind_append, kept]
    · exact fun line member isLater =>
        absurd isLater (ne_laterItem_of_mem_map_mk ordinary_ne_laterItem _ line member)

theorem notMem_of_mem_headerLines {header : List String} {line : Line}
    (member : line ∈ headerLines header) : '\n' ∉ line := by
  rw [headerLines] at member
  split at member
  · cases member
  · rcases List.mem_append.1 member with member | member
    · obtain ⟨inner, inHeader, rfl⟩ := List.mem_map.1 member
      obtain ⟨text, _, inLines⟩ := List.mem_flatMap.1 inHeader
      obtain ⟨blanks, _, whole⟩ := Text.exists_trimEnd_append ("### ".toList ++ inner)
      intro feed
      have inside : '\n' ∈ "### ".toList ++ inner := whole ▸ List.mem_append_left blanks feed
      rcases List.mem_append.1 inside with inMark | inInner
      · simp at inMark
      · exact Text.not_mem_of_mem_pieces inLines inInner
    · rw [List.mem_singleton.1 member]
      exact List.not_mem_nil

/-- No line breaks off before its end. -/
theorem notMem_of_mem_markedLines {header : List String} {sections : List (String × Node)}
    {line : MarkedLine} (member : line ∈ markedLines header sections) : '\n' ∉ line.text := by
  rcases List.mem_append.1 member with member | member
  · obtain ⟨text, inHeader, rfl⟩ := List.mem_map.1 member
    exact notMem_of_mem_headerLines inHeader
  · have inLayout : line.text ∈ (sectionsLayout false none sections).lines := by
      rw [(spread_sections .ordinary none sections).1]
      exact List.mem_map_of_mem member
    intro feed
    have printable := isPrintable_of_mem_sectionsLayout false sections _ inLayout _ feed
    cases printable

theorem render_eq_textOfLines (header : List String) (spaced : Bool)
    (sections : List (String × Node)) :
    render header spaced sections =
      textOfLines (headerLines header ++ (sectionsLayout spaced none sections).lines) := by
  rw [render, textOfLines, Layout.text, List.flatMap_append]

theorem render_false (header : List String) (sections : List (String × Node)) :
    render header false sections = textOfLines ((markedLines header sections).map (·.text)) := by
  rw [render_eq_textOfLines, markedLines, List.map_append, map_text_map_mk,
    (spread_sections .ordinary none sections).1]

theorem render_true (header : List String) (sections : List (String × Node)) :
    render header true sections = textOfLines (spread .ordinary (markedLines header sections)) := by
  rw [render_eq_textOfLines, markedLines, spread_append, spread_map_mk ordinary_ne_laterItem,
    (spread_sections _ none sections).2.1]

end Yaml

namespace Document

/-- **Empty lines between items are all that the option changes.**  A document that has a text has
one without them and one with them.  The lines of the one are those of the document; in the other an
empty line stands above each that holds the dash of a later item with entries, unless the line
breaks of a literal block are kept right above it. -/
theorem toYaml_spread {config : SerializerConfig} {document : Document} {text : String}
    (written : document.toYaml config = .ok text) :
    let marked := Yaml.markedLines config.header document.sections
    document.toYaml { config with blankLinesBetweenItems := false } =
        .ok (Yaml.textOfLines (marked.map (·.text))) ∧
      document.toYaml { config with blankLinesBetweenItems := true } =
        .ok (Yaml.textOfLines (Yaml.spread .ordinary marked)) ∧
      ∀ line ∈ marked, '\n' ∉ line.text ∧ (line.kind = .laterItem → Yaml.HoldsDash line.text) := by
  intro marked
  obtain ⟨faultless, _⟩ := toYaml_eq_ok_iff.1 written
  refine ⟨toYaml_eq_ok_iff.2 ⟨faultless, (Yaml.render_false _ _).symm⟩,
    toYaml_eq_ok_iff.2 ⟨faultless, (Yaml.render_true _ _).symm⟩, fun line member => ?_⟩
  refine ⟨Yaml.notMem_of_mem_markedLines member, fun isLater => ?_⟩
  rcases List.mem_append.1 member with inHeader | inSections
  · exact absurd isLater
      (Yaml.ne_laterItem_of_mem_map_mk Yaml.ordinary_ne_laterItem _ line inHeader)
  · exact (Yaml.spread_sections .ordinary none document.sections).2.2 line inSections isLater

/-- A template of three steps, the first of which keeps a line break. -/
def keptScriptTemplate : Document :=
  .template [] (.steps [.item { action := .script ⟨"make\n", none, false⟩ },
    .item { action := .script ⟨"make test", none, false⟩ },
    .item { action := .script ⟨"ls", none, false⟩ }])

/-- No empty line stands below the script that keeps its line break. -/
theorem toYaml_spread_keptScript :
    let header := ["made by hand"]
    keptScriptTemplate.toYaml { header } = .ok ("### made by hand\n\nsteps:\n" ++
        "- script: |+\n    make\n- script: make test\n\n- script: ls\n") ∧
      keptScriptTemplate.toYaml { header, blankLinesBetweenItems := false } =
        .ok ("### made by hand\n\nsteps:\n" ++
          "- script: |+\n    make\n- script: make test\n- script: ls\n") := by
  intro header
  have written : keptScriptTemplate.toYaml { header } = .ok ("### made by hand\n\nsteps:\n" ++
      "- script: |+\n    make\n- script: make test\n\n- script: ls\n") :=
    toYaml_eq_ok_iff.2 ⟨rfl, by decide⟩
  obtain ⟨compact, spaced, _⟩ := toYaml_spread written
  exact ⟨spaced.trans (congrArg Except.ok (by decide)),
    compact.trans (congrArg Except.ok (by decide))⟩

end Document

end AzurePipelines
