import AzurePipelines.Proofs.Yaml.InlineText
import Mathlib

/-!
# Literal blocks are read back

The text of several lines that is laid out as a literal block is what a reader takes from the lines
of the block (`read_body`), for every text in that style, at every column and before all lines that
can follow (`Resumes`).  The reader finds the column of the block from its first line that is not
empty, because no line above it holds blanks alone; and the empty lines below a block belong to it
only where its line breaks are kept, where none may follow.
-/

namespace AzurePipelines

/-! ## Lines of texts -/

namespace Text

/-- The last piece is empty only where the text ends in the separator. -/
theorem getLast?_eq_of_getLast?_pieces {sep : Char} {text : List Char} (nonempty : text ≠ [])
    (last : (pieces sep text).getLast? = some []) : text.getLast? = some sep := by
  induction text with
  | nil => exact absurd rfl nonempty
  | cons c text ih =>
    cases text with
    | nil =>
      by_cases h : c = sep
      · simp [h]
      · simp [pieces, h] at last
    | cons d text =>
      rw [List.getLast?_cons_cons]
      refine ih (List.cons_ne_nil d text) ?_
      obtain ⟨first, others, shape⟩ :=
        List.exists_cons_of_ne_nil (pieces_ne_nil sep (d :: text))
      by_cases h : c = sep
      · rw [pieces, if_pos h, shape, List.getLast?_cons_cons] at last
        rw [shape, last]
      · rw [pieces, if_neg h, shape] at last
        rw [shape]
        cases others with
        | nil => simp at last
        | cons second others => simpa using last

end Text

namespace Yaml

/-- Lines with a break after each are the lines with a break between two, and one more. -/
theorem flatMap_append_lineFeed {lines : List Line} (nonempty : lines ≠ []) :
    lines.flatMap (· ++ ['\n']) = ['\n'].intercalate lines ++ ['\n'] := by
  induction lines with
  | nil => exact absurd rfl nonempty
  | cons line lines ih =>
    cases lines with
    | nil => simp
    | cons next lines =>
      rw [List.flatMap_cons, ih (List.cons_ne_nil next lines), List.intercalate_cons_cons]
      simp

/-! ## The first line that is not empty -/

theorem startsCleanly_append_empty (lines : List Line) :
    startsCleanly (lines ++ [[]]) = startsCleanly lines := by
  induction lines with
  | nil => rfl
  | cons line lines ih =>
    rw [List.cons_append, startsCleanly, startsCleanly, ih]

theorem isVacantLine_eq_false {line : Line} (h : Text.allBlank line = false) :
    isVacantLine line = false := by
  cases vacant : isVacantLine line with
  | false => rfl
  | true =>
    have blank : Text.allBlank line = true := by
      simp only [isVacantLine, List.all_eq_true, beq_iff_eq] at vacant
      simp only [Text.allBlank, List.all_eq_true]
      intro c member
      rw [vacant c member]
      rfl
    rw [blank] at h
    cases h

theorem isEmpty_eq_false_of_isVacantLine {line : Line} (visible : isVacantLine line = false) :
    line.isEmpty = false := by
  cases line with
  | nil => cases visible
  | cons _ _ => rfl

/-- Where a text starts cleanly, all lines above the first that is not vacant are empty. -/
theorem exists_first_of_startsCleanly {lines : List Line} (clean : startsCleanly lines = true) :
    ∃ count first others, lines = List.replicate count [] ++ first :: others ∧
      Text.allBlank first = false := by
  induction lines with
  | nil => cases clean
  | cons line lines ih =>
    rw [startsCleanly] at clean
    cases blank : Text.allBlank line with
    | false => exact ⟨0, line, lines, rfl, blank⟩
    | true =>
      rw [blank, if_pos rfl, Bool.and_eq_true, List.isEmpty_iff] at clean
      obtain ⟨rfl, clean⟩ := clean
      obtain ⟨count, first, others, rfl, firstBlank⟩ := ih clean
      exact ⟨count + 1, first, others, rfl, firstBlank⟩

/-! ## Margins -/

@[simp] theorem indentation_margin_append (column : Nat) (line : Line) :
    indentation (margin column ++ line) = column + indentation line := by
  induction column with
  | zero => simp [margin]
  | succ column ih =>
    have shape : margin (column + 1) ++ line = ' ' :: (margin column ++ line) := rfl
    rw [shape, indentation, List.takeWhile_cons_of_pos (by rfl), List.length_cons, ← indentation,
      ih]
    omega

@[simp] theorem isVacantLine_margin_append (column : Nat) (line : Line) :
    isVacantLine (margin column ++ line) = isVacantLine line := by
  simp [isVacantLine, margin]

@[simp] theorem length_margin (column : Nat) : (margin column).length = column := by simp [margin]

/-! ## What follows a block -/

/-- The lines that can stand below a part at a column: after empty lines, of which there are none
where line breaks are kept, a line that starts at the column or further to the left. -/
inductive Resumes (column : Nat) : Bool → List Line → Prop
  | done (keeps : Bool) : Resumes column keeps []
  | empty {below : List Line} : Resumes column false below → Resumes column false ([] :: below)
  | line {keeps : Bool} {line : Line} {below : List Line} :
    isVacantLine line = false → indentation line ≤ column → Resumes column keeps (line :: below)

namespace Resumes

variable {column further : Nat} {keeps : Bool} {rest : List Line}

/-- What can stand below a part can stand below a part further to the right. -/
theorem mono (h : Resumes column keeps rest) (le : column ≤ further) :
    Resumes further keeps rest := by
  induction h with
  | done keeps => exact .done keeps
  | empty _ ih => exact .empty ih
  | line visible indented => exact .line visible (indented.trans le)

/-- What can stand below lines whose breaks are kept can stand below all others. -/
theorem of_keeps (h : Resumes column keeps rest) : Resumes column false rest := by
  cases h with
  | done _ => exact .done false
  | empty below => exact .empty below
  | line visible indented => exact .line visible indented

/-- A block further to the right ends at the first line that is not empty. -/
theorem continuesBlock_iff (h : Resumes column keeps rest) (lt : column < further) :
    rest.takeWhile (continuesBlock further) = rest.takeWhile List.isEmpty ∧
      rest.dropWhile (continuesBlock further) = rest.dropWhile List.isEmpty := by
  induction h with
  | done _ => exact ⟨rfl, rfl⟩
  | empty _ ih =>
    obtain ⟨taken, dropped⟩ := ih
    have goesOn : continuesBlock further [] = true := rfl
    simp [goesOn, taken, dropped]
  | @line _ line _ visible indented =>
    have stops : continuesBlock further line = false := by
      simp only [continuesBlock, visible, Bool.false_or, decide_eq_false_iff_not]
      omega
    simp [stops, isEmpty_eq_false_of_isVacantLine visible]

/-- No empty line follows lines whose breaks are kept. -/
theorem takeWhile_isEmpty (h : Resumes column true rest) : rest.takeWhile List.isEmpty = [] := by
  cases h with
  | done _ => rfl
  | line visible _ => simp [isEmpty_eq_false_of_isVacantLine visible]

end Resumes

/-! ## Blocks of texts -/

theorem startsCleanly_of_styleOf {text : List Char} (h : styleOf text = .literal) :
    startsCleanly (Text.lines text) = true := by
  unfold styleOf at h
  split at h
  · cases h
  · split at h
    · split at h
      · assumption
      · cases h
    · split at h <;> cases h

theorem isUnprintable_eq_false_of_styleOf {text : List Char} (h : styleOf text = .literal) :
    ∀ c ∈ text, isUnprintable c = false := by
  unfold styleOf at h
  split at h
  · cases h
  · rename_i printable
    simpa using printable

theorem ne_nil_of_styleOf {text : List Char} (h : styleOf text = .literal) : text ≠ [] := by
  rintro rfl
  cases h

theorem LiteralBlock.lines_ne_nil (text : List Char) : (ofText text).lines ≠ [] :=
  Text.pieces_ne_nil '\n' _

/-- The lines of the block, and the break at its end, are the text. -/
theorem LiteralBlock.intercalate_lines (text : List Char) :
    ['\n'].intercalate (ofText text).lines ++ (if (ofText text).keeps then ['\n'] else []) =
      text := by
  cases keeps : (ofText text).keeps with
  | false =>
    have lines : (ofText text).lines = Text.lines text := by
      change (text.getLast? == some '\n') = false at keeps
      simp [ofText, keeps]
    rw [lines, Text.lines, Text.intercalate_pieces]
    simp
  | true =>
    change (text.getLast? == some '\n') = true at keeps
    have lines : (ofText text).lines = Text.lines text.dropLast := by simp [ofText, keeps]
    have last : text.dropLast ++ ['\n'] = text :=
      List.dropLast_append_getLast? '\n' (by simpa using keeps)
    rw [lines, Text.lines, Text.intercalate_pieces, if_pos rfl, last]

theorem LiteralBlock.startsCleanly_lines {text : List Char} (h : styleOf text = .literal) :
    startsCleanly (ofText text).lines = true := by
  have clean := startsCleanly_of_styleOf h
  cases keeps : text.getLast? == some '\n' with
  | false => simpa [ofText, keeps] using clean
  | true =>
    have last : text.dropLast ++ ['\n'] = text :=
      List.dropLast_append_getLast? '\n' (by simpa using keeps)
    rw [← last, Text.lines, Text.pieces_append_cons, Text.pieces,
      startsCleanly_append_empty] at clean
    simpa [ofText, keeps, Text.lines] using clean

theorem LiteralBlock.mem_of_mem_lines {text : List Char} {line : Line} {c : Char}
    (line_mem : line ∈ (ofText text).lines) (member : c ∈ line) : c ∈ text := by
  have inLines := Text.mem_of_mem_pieces line_mem member
  split at inLines
  · exact List.mem_of_mem_dropLast inLines
  · exact inLines

theorem LiteralBlock.isPrintable_of_mem_lines {text : List Char} (h : styleOf text = .literal)
    {line : Line} {c : Char} (line_mem : line ∈ (ofText text).lines) (member : c ∈ line) :
    isPrintable c = true := by
  have notFeed : c ≠ '\n' := by
    rintro rfl
    exact Text.not_mem_of_mem_pieces line_mem member
  have inText := mem_of_mem_lines line_mem member
  simp [isPrintable, notFeed, isUnprintable_eq_false_of_styleOf h c inText]

/-- Every character of a text but its line breaks stands on a line of its block. -/
theorem LiteralBlock.exists_mem_lines {text : List Char} {c : Char} (member : c ∈ text)
    (notFeed : c ≠ '\n') : ∃ line ∈ (ofText text).lines, c ∈ line := by
  refine Text.exists_mem_pieces ?_ notFeed
  split
  · rename_i keeps
    have last : text.dropLast ++ ['\n'] = text :=
      List.dropLast_append_getLast? '\n' (by simpa using keeps)
    rw [← last] at member
    exact (List.mem_append.1 member).resolve_right (by simpa using notFeed)
  · exact member

/-- Without the breaks at the end of the text, its last line is not empty. -/
theorem LiteralBlock.dropWhile_reverse_lines {text : List Char} (h : styleOf text = .literal)
    (keeps : (ofText text).keeps = false) (count : Nat) :
    (((ofText text).lines ++ List.replicate count []).reverse.dropWhile List.isEmpty).reverse =
      (ofText text).lines := by
  change (text.getLast? == some '\n') = false at keeps
  have lines : (ofText text).lines = Text.lines text := by simp [ofText, keeps]
  obtain ⟨init, last, shape⟩ : ∃ init last, (ofText text).lines = init ++ [last] :=
    ⟨_, _, (List.dropLast_append_getLast (lines_ne_nil text)).symm⟩
  have nonempty : last.isEmpty = false := by
    cases last with
    | cons _ _ => rfl
    | nil =>
      have lastLine : (Text.pieces '\n' text).getLast? = some [] := by
        rw [← Text.lines, ← lines, shape, List.getLast?_concat]
      have ends := Text.getLast?_eq_of_getLast?_pieces (ne_nil_of_styleOf h) lastLine
      simp [ends] at keeps
  rw [shape, List.reverse_append, List.reverse_replicate, List.dropWhile_append_of_pos (by simp)]
  simp [nonempty]

/-! ## Reading blocks -/

section Block

variable {text : List Char} {rest : List Line} {parent : Nat}

/-- What the header of a block opens below its parent. -/
def LiteralBlock.opens (block : LiteralBlock) (parent : Nat) : BlockHeader :=
  ⟨parent, block.statesIndent, block.keeps⟩

theorem LiteralBlock.lineValue_header (block : LiteralBlock) :
    lineValue parent block.header = some ⟨[], some (block.opens parent)⟩ := by
  obtain ⟨lines, keeps, statesIndent⟩ := block
  cases keeps <;> cases statesIndent <;> rfl

/-- The first line of the block that is not vacant tells whether the block states its
indentation. -/
theorem LiteralBlock.statesIndent_of_lines {count : Nat} {first : Line} {others : List Line}
    (shape : (ofText text).lines = List.replicate count [] ++ first :: others)
    (visible : Text.allBlank first = false) :
    (ofText text).statesIndent = first.head?.any isSpaceOrTab := by
  cases first with
  | nil => cases visible
  | cons c first =>
    have found : (ofText text).lines.find? (!·.isEmpty) = some (c :: first) := by
      rw [shape, List.find?_append]
      simp
    change (((ofText text).lines.find? (!·.isEmpty)).bind List.head?).any isSpaceOrTab = _
    rw [found]
    rfl

theorem LiteralBlock.indentation_first {count : Nat} {first : Line} {others : List Line}
    (shape : (ofText text).lines = List.replicate count [] ++ first :: others)
    (visible : Text.allBlank first = false) (states : (ofText text).statesIndent = false) :
    indentation first = 0 := by
  rw [statesIndent_of_lines shape visible] at states
  cases first with
  | nil => rfl
  | cons c first =>
    have notSpace : c ≠ ' ' := by
      rintro rfl
      cases states
    simp [indentation, notSpace]

theorem LiteralBlock.column_body (h : styleOf text = .literal) :
    ((ofText text).opens parent).column ((ofText text).body (parent + 2) ++ rest) =
      parent + 2 := by
  unfold BlockHeader.column
  cases states : (ofText text).statesIndent with
  | true => simp [opens, states]
  | false =>
    obtain ⟨count, first, others, shape, visible⟩ :=
      exists_first_of_startsCleanly (startsCleanly_lines h)
    have nonempty : first ≠ [] := by
      rintro rfl
      cases visible
    have found : ((ofText text).body (parent + 2) ++ rest).find? (!isVacantLine ·) =
        some (margin (parent + 2) ++ first) := by
      have vacant : isVacantLine [] = true := rfl
      simp [body, shape, nonempty, isVacantLine_eq_false visible, vacant]
    simp [opens, states, found, indentation_first shape visible states]

theorem LiteralBlock.continuesBlock_of_mem_body {block : LiteralBlock} {column : Nat} {line : Line}
    (member : line ∈ block.body column) : continuesBlock column line = true := by
  obtain ⟨inner, _, rfl⟩ := List.mem_map.1 member
  split
  · rfl
  · simp [continuesBlock]

theorem isPrintable_of_mem_margin {column : Nat} {c : Char} (member : c ∈ margin column) :
    isPrintable c = true := by
  rw [List.eq_of_mem_replicate member]
  rfl

theorem LiteralBlock.header_subset (block : LiteralBlock) :
    block.header ⊆ ['|', '2', '+', '-'] := by
  obtain ⟨lines, keeps, statesIndent⟩ := block
  cases keeps <;> cases statesIndent <;> simp [header]

theorem LiteralBlock.isPrintable_of_mem_header {block : LiteralBlock} {c : Char}
    (member : c ∈ block.header) : isPrintable c = true := by
  have printable : ['|', '2', '+', '-'].all isPrintable = true := rfl
  exact List.all_eq_true.1 printable c (block.header_subset member)

/-- What stands on a line of the block is of its margin or of its text. -/
theorem LiteralBlock.mem_of_mem_body {text : List Char} {column : Nat} {line : Line} {c : Char}
    (line_mem : line ∈ (ofText text).body column) (member : c ∈ line) : c = ' ' ∨ c ∈ text := by
  obtain ⟨inner, inLines, rfl⟩ := List.mem_map.1 line_mem
  split at member
  · cases member
  · rcases List.mem_append.1 member with member | member
    · exact .inl (List.eq_of_mem_replicate member)
    · exact .inr (mem_of_mem_lines inLines member)

theorem LiteralBlock.isPrintable_of_mem_body (h : styleOf text = .literal) {column : Nat}
    {line : Line} {c : Char} (line_mem : line ∈ (ofText text).body column) (member : c ∈ line) :
    isPrintable c = true := by
  obtain ⟨inner, inLines, rfl⟩ := List.mem_map.1 line_mem
  split at member
  · cases member
  · rcases List.mem_append.1 member with member | member
    · exact isPrintable_of_mem_margin member
    · exact isPrintable_of_mem_lines h inLines member

theorem LiteralBlock.map_drop_body (block : LiteralBlock) (column : Nat) :
    (block.body column).map (·.drop column) = block.lines := by
  rw [body, List.map_map]
  conv_rhs => rw [← List.map_id block.lines]
  refine List.map_congr_left fun line _ => ?_
  cases line with
  | nil => simp
  | cons c line => simp

/-- **The text of a literal block is read back.**  Empty lines below the block are passed. -/
theorem LiteralBlock.read_body (h : styleOf text = .literal)
    (resumes : Resumes parent (ofText text).keeps rest) :
    ((ofText text).opens parent).read ((ofText text).body (parent + 2) ++ rest) =
      (text, rest.dropWhile List.isEmpty) := by
  obtain ⟨taken, dropped⟩ := resumes.continuesBlock_iff (show parent < parent + 2 by omega)
  have body : ∀ line ∈ (ofText text).body (parent + 2), continuesBlock (parent + 2) line = true :=
    fun _ => continuesBlock_of_mem_body
  have whole := intercalate_lines text
  simp only [BlockHeader.read, column_body h]
  rw [List.takeWhile_append_of_pos body, List.dropWhile_append_of_pos body, taken, dropped,
    List.map_append, map_drop_body, Prod.mk.injEq]
  refine ⟨?_, rfl⟩
  cases keeps : (ofText text).keeps with
  | true =>
    rw [keeps] at resumes whole
    rw [resumes.takeWhile_isEmpty]
    simp only [BlockHeader.textOf, opens, keeps, List.map_nil, List.append_nil, if_true] at whole ⊢
    rw [flatMap_append_lineFeed (lines_ne_nil text), whole]
  | false =>
    have empties : (rest.takeWhile List.isEmpty).map (·.drop (parent + 2)) =
        List.replicate (rest.takeWhile List.isEmpty).length [] := by
      rw [← List.map_const']
      refine List.map_congr_left fun line member => ?_
      have empty := List.mem_takeWhile_imp member
      rw [List.isEmpty_iff.1 empty, List.drop_nil]
    rw [keeps] at whole
    rw [empties]
    simp only [BlockHeader.textOf, opens, keeps, Bool.false_eq_true, if_false, List.append_nil]
      at whole ⊢
    rw [dropWhile_reverse_lines h keeps, whole]

end Block

end Yaml

end AzurePipelines
