import AzurePipelines.Proofs.Yaml.FlowScalars
import Mathlib

/-!
# Scalars of several lines

What is written of a text of several lines is decoded where it stands: behind the dash or the key
whose value it is, and above whatever comes next in the document (`CanFollow`).  Where a block
states its indentation, that is two columns from its parent, and elsewhere its first line that is
not empty shows it.  Below a dash no block may state its indentation, so a text that starts with
blanks is put on one line there.
-/

namespace AzurePipelines.Yaml

/-! ## The rules -/

/-- The text of the literal block that the characters start with, and the lines that follow the
block.  The block is the value of a dash or key at `parent`. -/
def literalScalar? (parent : Nat) (chars : List Char) : Option (List Char × List Line) :=
  match linesRead chars with
  | ('|' :: indicators) :: below => (blockHeader? parent indicators).map (·.read below)
  | _ => none

/-- The first line of the text that is not empty starts with a space or tab. -/
def startsIndented (text : List Char) : Bool :=
  (text.dropWhile (· == '\n')).head?.any isSpaceOrTab

/-- The text starts with a line that is not empty and is indented at most up to a column. -/
def StartsWithin (column : Nat) (text : List Char) : Prop :=
  ∃ spaces c rest, text = margin spaces ++ c :: rest ∧ spaces ≤ column ∧ c ≠ ' ' ∧ c ∉ lineBreaks

/-- What may come below the value of a dash or key at `parent`: nothing, or a line that does not
belong to the value.  Between them there may be one empty line if the value does not keep the line
breaks at its end. -/
structure CanFollow (parent : Nat) (keeps : Bool) (gap rest : List Char) : Prop where
  gap : gap = [] ∨ (gap = ['\n'] ∧ keeps = false)
  rest : rest = [] ∨ StartsWithin parent rest

/-! ## What follows -/

theorem linesRead_margin_append {text : List Char} {line : Line} {lines : List Line}
    (read : linesRead text = line :: lines) (spaces : Nat) :
    linesRead (margin spaces ++ text) = (margin spaces ++ line) :: lines := by
  induction spaces with
  | zero => exact read
  | succ spaces ih => exact linesRead_cons (by decide) ih

theorem StartsWithin.exists_linesRead {column : Nat} {text : List Char}
    (h : StartsWithin column text) :
    ∃ line others, linesRead text = line :: others ∧ isVacantLine line = false ∧
      indentation line ≤ column := by
  obtain ⟨spaces, c, rest, rfl, within, notSpace, unbreaking⟩ := h
  have read := linesRead_cons_eq unbreaking rest
  refine ⟨_, _, linesRead_margin_append read spaces, ?_, ?_⟩
  · simp [isVacantLine, notSpace]
  · rw [indentation_margin_append]
    simpa [indentation, notSpace] using within

namespace CanFollow

variable {parent : Nat} {keeps : Bool} {gap rest : List Char}

/-- The lines that come next end a block, and none of them is empty. -/
theorem resumes_rest (h : CanFollow parent keeps gap rest) :
    Resumes parent keeps (linesRead rest) ∧
      (linesRead rest).dropWhile List.isEmpty = linesRead rest := by
  rcases h.rest with rfl | starts
  · exact ⟨.done keeps, rfl⟩
  · obtain ⟨line, others, read, visible, within⟩ := starts.exists_linesRead
    have filled := isEmpty_eq_false_of_isVacantLine visible
    rw [read]
    exact ⟨.line visible within, List.dropWhile_cons_of_neg (by simp [filled])⟩

theorem resumes (h : CanFollow parent keeps gap rest) :
    Resumes parent keeps (linesRead (gap ++ rest)) ∧
      (linesRead (gap ++ rest)).dropWhile List.isEmpty = linesRead rest := by
  obtain ⟨resumes, filled⟩ := h.resumes_rest
  rcases h.gap with rfl | ⟨rfl, rfl⟩
  · exact ⟨resumes, filled⟩
  · have read : linesRead (['\n'] ++ rest) = [] :: linesRead rest := linesRead_append [] rest
    rw [read]
    exact ⟨.empty resumes, filled⟩

end CanFollow

/-! ## Blocks -/

/-- Empty lines above a line are line breaks above it. -/
theorem exists_intercalate_append (count : Nat) (first : Line) (others : List Line) :
    ∃ tail, ['\n'].intercalate (List.replicate count [] ++ first :: others) =
      List.replicate count '\n' ++ first ++ tail := by
  induction count with
  | zero =>
    cases others with
    | nil => exact ⟨[], by simp⟩
    | cons next others => exact ⟨_, by simp [List.intercalate_cons_cons]; rfl⟩
  | succ count ih =>
    obtain ⟨tail, shape⟩ := ih
    refine ⟨tail, ?_⟩
    obtain ⟨next, lines, nonempty⟩ : ∃ next lines,
        List.replicate count [] ++ first :: others = next :: lines :=
      List.exists_cons_of_ne_nil (by simp)
    rw [nonempty] at shape
    rw [List.replicate_succ, List.cons_append, nonempty, List.intercalate_cons_cons, shape,
      List.replicate_succ]
    simp

namespace LiteralBlock

variable {text : List Char} {parent : Nat} {gap rest : List Char}

theorem exists_blockHeader? (block : LiteralBlock) (parent : Nat) :
    ∃ indicators, block.header = '|' :: indicators ∧
      blockHeader? parent indicators = some (block.opens parent) := by
  obtain ⟨lines, keeps, statesIndent⟩ := block
  cases keeps <;> cases statesIndent <;> exact ⟨_, rfl, rfl⟩

/-- A block states its indentation where the first line of its text that is not empty starts with a
blank. -/
theorem statesIndent_ofText (style : styleOf text = .literal) :
    (ofText text).statesIndent = startsIndented text := by
  obtain ⟨count, first, others, shape, visible⟩ :=
    exists_first_of_startsCleanly (startsCleanly_lines style)
  rw [statesIndent_of_lines shape visible]
  cases first with
  | nil => cases visible
  | cons c first =>
    have notFeed : c ≠ '\n' := by
      rintro rfl
      have inLines : '\n' :: first ∈ (ofText text).lines := by simp [shape]
      cases isPrintable_of_mem_lines style inLines List.mem_cons_self
    have whole := intercalate_lines text
    obtain ⟨tail, joined⟩ := exists_intercalate_append count (c :: first) others
    rw [shape, joined] at whole
    rw [← whole]
    simp [startsIndented, notFeed]

theorem literalScalar?_of_linesRead {chars indicators : List Char} {below : List Line}
    (read : linesRead chars = ('|' :: indicators) :: below) :
    literalScalar? parent chars = (blockHeader? parent indicators).map (·.read below) := by
  rw [literalScalar?, read]
  rfl

theorem literalScalar?_body (style : styleOf text = .literal)
    (follows : CanFollow parent (ofText text).keeps gap rest) :
    literalScalar? parent
        (((ofText text).header :: (ofText text).body (parent + 2)).flatMap (· ++ ['\n']) ++
          (gap ++ rest)) =
      some (text, linesRead rest) := by
  have printable : ∀ line ∈ (ofText text).header :: (ofText text).body (parent + 2),
      ∀ c ∈ line, isPrintable c = true := by
    refine List.forall_mem_cons.2 ⟨fun c => isPrintable_of_mem_header, fun line inBody c => ?_⟩
    exact isPrintable_of_mem_body style inBody
  obtain ⟨indicators, header, opens⟩ := exists_blockHeader? (ofText text) parent
  obtain ⟨resumes, next⟩ := follows.resumes
  have lines := linesRead_append_of_isPrintable printable (gap ++ rest)
  rw [header, List.cons_append] at lines
  rw [header, literalScalar?_of_linesRead lines, opens, Option.map_some, read_body style resumes,
    next]

end LiteralBlock

/-! ## Values -/

section Value

variable {value : Scalar} {parent : Nat} {gap rest : List Char}

/-- A value that is laid out as a block is decoded behind what leads to it. -/
theorem exists_literalScalar?_eq {belowKey : Bool} {block : LiteralBlock}
    (isBlock : literalBlock? belowKey value = some block) (lead : Line)
    (follows : CanFollow parent block.keeps gap rest) :
    ∃ written,
      (scalarLayout lead (parent + 2) belowKey value).text ++ (gap ++ rest) =
        lead ++ ' ' :: written ∧
      literalScalar? parent written = some (value.text.toList, linesRead rest) := by
  obtain ⟨laid, style, rfl⟩ := scalarLayout_of_literalBlock? isBlock lead (parent + 2)
  refine ⟨_, ?_, LiteralBlock.literalScalar?_body style follows⟩
  rw [laid]
  simp [Layout.text]

theorem literalBlock?_of_styleOf (untyped : value.isTyped = false)
    (style : styleOf value.text.toList = .literal) (belowKey : Bool)
    (placed : belowKey = true ∨ startsIndented value.text.toList = false) :
    literalBlock? belowKey value = some (.ofText value.text.toList) := by
  have states := LiteralBlock.statesIndent_ofText style
  unfold literalBlock?
  rcases placed with rfl | indented
  · simp [untyped, style]
  · simp [untyped, style, states, indented]

theorem scalarLayout_of_startsIndented (untyped : value.isTyped = false)
    (style : styleOf value.text.toList = .literal)
    (indented : startsIndented value.text.toList = true) (lead : Line) (column : Nat) :
    scalarLayout lead column false value =
      .line (lead ++ ' ' :: doubleQuoted value.text.toList) := by
  have states := LiteralBlock.statesIndent_ofText style
  simp [scalarLayout, untyped, style, states, indented]

/-- **Texts of several lines are decoded.**  Whatever leads to the value and whatever can follow it,
below a key the block is decoded to the text, and what follows stays.  Below a dash the same holds
if the text does not start with blanks, and else it is written in double quotes, on one line. -/
theorem literal_decodes (untyped : value.isTyped = false)
    (style : styleOf value.text.toList = .literal) (lead : Line)
    (follows : CanFollow parent (LiteralBlock.ofText value.text.toList).keeps gap rest) :
    (∃ written,
      (scalarLayout lead (parent + 2) true value).text ++ (gap ++ rest) = lead ++ ' ' :: written ∧
      literalScalar? parent written = some (value.text.toList, linesRead rest)) ∧
    (startsIndented value.text.toList = false → ∃ written,
      (scalarLayout lead (parent + 2) false value).text ++ (gap ++ rest) = lead ++ ' ' :: written ∧
      literalScalar? parent written = some (value.text.toList, linesRead rest)) ∧
    (startsIndented value.text.toList = true → ∃ line,
      scalarLayout lead (parent + 2) false value = .line (lead ++ ' ' :: line) ∧
      (∀ c ∈ line, c ∉ lineBreaks) ∧ line.head? = some '"' ∧
      decoded? line = some value.text.toList) := by
  refine ⟨?_, fun flush => ?_, fun indented => ?_⟩
  · have block := literalBlock?_of_styleOf untyped style true (.inl rfl)
    exact exists_literalScalar?_eq block lead follows
  · have block := literalBlock?_of_styleOf untyped style false (.inr flush)
    exact exists_literalScalar?_eq block lead follows
  · refine ⟨doubleQuoted value.text.toList, ?_, fun c member => ?_, rfl, ?_⟩
    · exact scalarLayout_of_startsIndented untyped style indented lead (parent + 2)
    · exact notMem_lineBreaks_of_isPrintable (isPrintable_of_mem_doubleQuoted member)
    · exact decoded?_eq_some (flowScalar?_doubleQuoted _ [])

/-- A script whose first line is indented, in front of another key. -/
theorem literal_decodes_indented :
    let script : Scalar := .string "\n  a\nb"
    (∃ written,
      (scalarLayout "run:".toList 2 true script).text ++ (['\n'] ++ "next: 1".toList) =
        "run:".toList ++ ' ' :: written ∧
      literalScalar? 0 written = some ("\n  a\nb".toList, linesRead "next: 1".toList)) ∧
    ∃ line,
      scalarLayout "-".toList 2 false script = .line ("-".toList ++ ' ' :: line) ∧
      decoded? line = some "\n  a\nb".toList := by
  intro script
  have style : styleOf script.text.toList = .literal := by decide
  have follows : CanFollow 0 (LiteralBlock.ofText script.text.toList).keeps ['\n']
      "next: 1".toList := by
    refine ⟨.inr ⟨rfl, by decide⟩, .inr ⟨0, 'n', "ext: 1".toList, rfl, le_rfl, ?_⟩⟩
    decide
  obtain ⟨below, _, _⟩ := literal_decodes rfl style "run:".toList follows
  obtain ⟨_, _, quoted⟩ := literal_decodes rfl style "-".toList follows
  obtain ⟨line, laid, _, _, decoded⟩ := quoted (by decide)
  exact ⟨below, line, laid, decoded⟩

example : literalScalar? 0 "|2-\n   a\n\n  b\n\nc".toList =
    some (" a\n\nb".toList, ["c".toList]) := by decide

end Value

end AzurePipelines.Yaml
