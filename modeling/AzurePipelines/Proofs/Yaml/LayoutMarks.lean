import AzurePipelines.Proofs.Yaml.BareText
import AzurePipelines.Proofs.Yaml.LiteralText
import AzurePipelines.Proofs.Yaml.NodeMarks
import Mathlib

/-!
# Layouts are read as the marks of their nodes

The lines of every part of a layout are read as the marks of the node that is laid out, before all
lines that can follow the part (`Layout.ReadsAs`).  One layout after another is read as the marks of
the one and the marks of the other, if the second starts where it can follow the first
(`ReadsAs.append`): this is where no empty line may stand below a block whose line breaks are kept.
What stands on a line before a value is either a dash or a key after other marks (`LeadsValue`).
-/

namespace AzurePipelines.Yaml

/-! ## Lines -/

/-- The marks of a line after other marks. -/
def LineMarks.afterAll (marks : List Mark) (line : LineMarks) : LineMarks :=
  { line with marks := marks ++ line.marks }

theorem LineMarks.map_afterAll_afterAll (first second : List Mark) (line : Option LineMarks) :
    (line.map (afterAll second)).map (afterAll first) = line.map (afterAll (first ++ second)) := by
  cases line with
  | none => rfl
  | some line => simp [afterAll]

theorem LineMarks.map_afterAll_nil (line : Option LineMarks) : line.map (afterAll []) = line := by
  cases line with
  | none => rfl
  | some line => rfl

/-- A line that is vacant holds no marks. -/
theorem lineMarks_of_isVacantLine {line : Line} (vacant : isVacantLine line = true)
    (dash : Option Nat) (column : Nat) : lineMarks dash column line = some ⟨[], none⟩ := by
  induction line generalizing column with
  | nil => rfl
  | cons c line ih =>
    simp only [isVacantLine, List.all_cons, Bool.and_eq_true, beq_iff_eq] at vacant
    obtain ⟨rfl, vacant⟩ := vacant
    rw [lineMarks, if_pos (by rfl), ih vacant]

theorem marksOf_cons_of_unopened {line : Line} {marks : List Mark}
    (h : lineMarks none 0 line = some ⟨marks, none⟩) (below : List Line) :
    marksOf (line :: below) = (marksOf below).map (marks ++ ·) := by
  rw [marksOf, h]
  cases vacant : isVacantLine line with
  | false => rfl
  | true =>
    rw [lineMarks_of_isVacantLine vacant] at h
    cases h
    simp

theorem marksOf_cons_of_opened {line : Line} {marks : List Mark} {header : BlockHeader}
    (h : lineMarks none 0 line = some ⟨marks, some header⟩) (below : List Line) :
    marksOf (line :: below) = (marksOf (header.read below).2).map
      (marks ++ .value (.scalar false (.ofList (header.read below).1)) :: ·) := by
  rw [marksOf, h]
  cases vacant : isVacantLine line with
  | false => rfl
  | true =>
    rw [lineMarks_of_isVacantLine vacant] at h
    cases h

/-- Empty lines say nothing outside of blocks. -/
theorem marksOf_dropWhile_isEmpty (lines : List Line) :
    marksOf (lines.dropWhile List.isEmpty) = marksOf lines := by
  induction lines with
  | nil => rfl
  | cons line lines ih =>
    cases line with
    | nil =>
      rw [List.dropWhile_cons_of_pos (by rfl), ih, marksOf]
      rfl
    | cons c line => rw [List.dropWhile_cons_of_neg (by simp)]

/-! ## Texts that stand alone -/

/-- What a scalar starts with is no blank, no dash before a blank, and opens neither brackets nor a
block. -/
theorem starts_of_lineScalar {c : Char} {rest : List Char} {read : Content × List Char}
    (h : lineScalar (c :: rest) = some read) :
    isSpaceOrTab c = false ∧ (c == '-' && blankNext rest) = false ∧
      c ≠ '[' ∧ c ≠ '\x7b' ∧ c ≠ '|' := by
  have notBlank : isSpaceOrTab c = false := by
    cases blank : isSpaceOrTab c with
    | false => rfl
    | true =>
      simp only [isSpaceOrTab, Bool.or_eq_true, beq_iff_eq] at blank
      rcases blank with rfl | rfl <;> cases h
  have notDash : (c == '-' && blankNext rest) = false := by
    cases dash : (c == '-' && blankNext rest) with
    | false => rfl
    | true =>
      rw [Bool.and_eq_true, beq_iff_eq] at dash
      obtain ⟨rfl, blank⟩ := dash
      simp [lineScalar, startsPlain, blank] at h
  refine ⟨notBlank, notDash, ?_, ?_, ?_⟩
  · rintro rfl
    cases h
  · rintro rfl
    cases h
  · rintro rfl
    cases h

/-- A text that is no key, and starts neither with a blank nor with a dash before one: the value on
its line. -/
structure StandsAlone (chars : List Char) : Prop where
  starts : ∃ c rest, chars = c :: rest ∧ isSpaceOrTab c = false ∧
    (c == '-' && blankNext rest) = false
  keyless : lineKey? chars = none

theorem StandsAlone.of_lineScalar {chars : List Char} {content : Content}
    (h : lineScalar chars = some (content, [])) : StandsAlone chars := by
  cases chars with
  | nil => cases h
  | cons c rest =>
    obtain ⟨notBlank, notDash, _⟩ := starts_of_lineScalar h
    exact ⟨⟨c, rest, rfl, notBlank, notDash⟩, by rw [lineKey?, h]⟩

theorem StandsAlone.emptySequence : StandsAlone "[]".toList :=
  ⟨⟨'[', _, rfl, rfl, rfl⟩, rfl⟩

theorem StandsAlone.emptyMapping : StandsAlone "\x7b\x7d".toList :=
  ⟨⟨'\x7b', _, rfl, rfl, rfl⟩, rfl⟩

theorem StandsAlone.header (block : LiteralBlock) : StandsAlone block.header :=
  ⟨⟨'|', _, rfl, rfl, rfl⟩, rfl⟩

/-- After spaces and a dash, a text that stands alone is the value of the dash. -/
theorem StandsAlone.lineMarks {chars : List Char} (h : StandsAlone chars) (parent column : Nat) :
    lineMarks (some parent) column chars = lineValue parent chars := by
  obtain ⟨c, rest, rfl, notBlank, notDash⟩ := h.starts
  have notSpace : c ≠ ' ' := by
    rintro rfl
    cases notBlank
  rw [Yaml.lineMarks, if_neg (by simp [notSpace]), notDash, h.keyless]
  simp

theorem StandsAlone.dropWhile {chars : List Char} (h : StandsAlone chars) :
    chars.dropWhile isSpaceOrTab = chars := by
  obtain ⟨c, rest, rfl, notBlank, _⟩ := h.starts
  rw [List.dropWhile_cons_of_neg (by simp [notBlank])]

theorem lineValue_of_lineScalar {chars : List Char} {content : Content}
    (h : lineScalar chars = some (content, [])) (parent : Nat) :
    lineValue parent chars = some ⟨[.value content], none⟩ := by
  cases chars with
  | nil => cases h
  | cons c rest =>
    obtain ⟨_, _, notBracket, notBrace, notBar⟩ := starts_of_lineScalar h
    unfold lineValue
    split
    · contradiction
    · simp_all
    · simp_all
    · simp_all
    · rw [h]

/-! ## Layouts -/

namespace Layout

@[simp] theorem lines_line (text : Line) : (line text).lines = [text] := rfl

@[simp] theorem lines_append (above below : Layout) :
    (above ++ below).lines = above.lines ++ below.lines := rfl

theorem keeps_append (above : Layout) {below : Layout} (h : below.lines ≠ []) :
    (above ++ below).keeps = below.keeps := by
  have filled : below.lines.isEmpty = false := by simp [h]
  change (if below.lines.isEmpty then above.keeps else below.keeps) = below.keeps
  rw [filled]
  rfl

theorem append_empty (above : Layout) : above ++ empty = above := by
  obtain ⟨lines, keeps⟩ := above
  change (⟨lines ++ [], keeps⟩ : Layout) = ⟨lines, keeps⟩
  rw [List.append_nil]

theorem empty_append {below : Layout} (h : below.lines ≠ []) : empty ++ below = below := by
  obtain ⟨lines, keeps⟩ := below
  have filled : lines.isEmpty = false := by simpa using h
  change (⟨[] ++ lines, if lines.isEmpty then false else keeps⟩ : Layout) = _
  rw [filled]
  rfl

/-- The layout is read as marks.  It may stand below a part at the column `indent` that keeps line
breaks or not, as `above` tells, and what goes on below it does so at `column`. -/
structure ReadsAs (layout : Layout) (above : Bool) (indent column : Nat) (marks : List Mark) :
    Prop where
  nonempty : layout.lines ≠ []
  printable : ∀ line ∈ layout.lines, ∀ c ∈ line, isPrintable c = true
  resumes : ∀ rest, Resumes indent above (layout.lines ++ rest)
  marksOf_append : ∀ rest, Resumes column layout.keeps rest →
    marksOf (layout.lines ++ rest) = (marksOf rest).map (marks ++ ·)

namespace ReadsAs

variable {upper lower : Layout} {above : Bool} {indent column inner : Nat}
  {first second : List Mark}

/-- One layout after another is read as the marks of both. -/
theorem append (h : upper.ReadsAs above indent inner first)
    (next : lower.ReadsAs upper.keeps inner column second) :
    (upper ++ lower).ReadsAs above indent column (first ++ second) where
  nonempty := by simp [h.nonempty]
  printable := by
    intro line member
    rcases List.mem_append.1 member with member | member
    · exact h.printable line member
    · exact next.printable line member
  resumes := by
    intro rest
    rw [lines_append, List.append_assoc]
    exact h.resumes _
  marksOf_append := by
    intro rest below
    rw [keeps_append _ next.nonempty] at below
    rw [lines_append, List.append_assoc, h.marksOf_append _ (next.resumes rest),
      next.marksOf_append rest below]
    cases marksOf rest with
    | none => rfl
    | some marks => simp

/-- What stands further to the left may follow. -/
theorem mono (h : upper.ReadsAs above indent inner first) (le : column ≤ inner) :
    upper.ReadsAs above indent column first where
  nonempty := h.nonempty
  printable := h.printable
  resumes := h.resumes
  marksOf_append rest below := h.marksOf_append rest (below.mono le)

/-- What may stand below a part may stand below all parts that keep no line breaks. -/
theorem mono_above (h : upper.ReadsAs true indent column first) :
    upper.ReadsAs above indent column first where
  nonempty := h.nonempty
  printable := h.printable
  resumes rest := by
    cases above with
    | false => exact (h.resumes rest).of_keeps
    | true => exact h.resumes rest
  marksOf_append := h.marksOf_append

/-- An empty line may set a part off from the part above, unless that keeps line breaks. -/
theorem gap {upon : Option Bool} (h : upper.ReadsAs true indent column first) :
    (Layout.gap upon ++ upper).ReadsAs (upon.getD false) indent column first := by
  by_cases apart : upon = some false
  · subst apart
    have shape : Layout.gap (some false) = line [] := rfl
    rw [shape]
    refine ⟨by simp, ?_, ?_, ?_⟩
    · intro text member
      rcases List.mem_cons.1 member with rfl | member
      · exact fun c member => absurd member List.not_mem_nil
      · exact h.printable text member
    · exact fun rest => .empty (h.resumes rest).of_keeps
    · intro rest below
      rw [keeps_append _ h.nonempty] at below
      have vacant : isVacantLine [] = true := rfl
      rw [lines_append, lines_line, List.append_assoc, List.singleton_append, marksOf,
        if_pos vacant, h.marksOf_append rest below]
  · rw [Layout.gap, if_neg apart, empty_append h.nonempty]
    exact h.mono_above

end ReadsAs

end Layout

/-! ## Before values -/

/-- What stands on a line before a key, or before nothing: the marks of the line so far, which
starts at the column `indent`, and the column at which the line goes on. -/
structure Leads (lead : Line) (indent column : Nat) (marks : List Mark) : Prop where
  printable : ∀ c ∈ lead, isPrintable c = true
  indentation : ∀ c rest, c ≠ ' ' → indentation (lead ++ c :: rest) = indent
  lineMarks : ∃ dash, ∀ chars, lineMarks none 0 (lead ++ chars) =
    (lineMarks dash column chars).map (.afterAll marks)

theorem lineMarks_margin_append (dash : Option Nat) (start column : Nat) (chars : List Char) :
    lineMarks dash start (margin column ++ chars) = lineMarks dash (start + column) chars := by
  induction column generalizing start with
  | zero => rfl
  | succ column ih =>
    have shape : margin (column + 1) ++ chars = ' ' :: (margin column ++ chars) := rfl
    rw [shape, lineMarks, if_pos (by rfl), ih, Nat.add_right_comm, Nat.add_assoc]

theorem Leads.margin (column : Nat) : Leads (margin column) column column [] where
  printable := fun _ => isPrintable_of_mem_margin
  indentation := by
    intro c rest notSpace
    rw [indentation_margin_append]
    simp [Yaml.indentation, notSpace]
  lineMarks := ⟨none, fun chars => by
    rw [lineMarks_margin_append, LineMarks.map_afterAll_nil, Nat.zero_add]⟩

theorem Leads.dash (column : Nat) :
    Leads (Yaml.margin column ++ ['-', ' ']) column (column + 2) [.dash column] where
  printable := by
    intro c member
    rcases List.mem_append.1 member with member | member
    · exact isPrintable_of_mem_margin member
    · simp only [List.mem_cons, List.not_mem_nil, or_false] at member
      rcases member with rfl | rfl <;> rfl
  indentation := by
    intro c rest _
    rw [List.append_assoc, indentation_margin_append]
    simp [Yaml.indentation]
  lineMarks := by
    refine ⟨some column, fun chars => ?_⟩
    rw [List.append_assoc, lineMarks_margin_append, Nat.zero_add]
    simp only [List.cons_append, List.nil_append]
    rw [Yaml.lineMarks, if_neg (by decide), if_pos (by rfl), Yaml.lineMarks, if_pos (by rfl)]
    rfl

/-- What stands on a line before the value of the dash or key at `parent`: the marks of the line,
and the column at which it starts. -/
structure LeadsValue (lead : Line) (indent parent : Nat) (marks : List Mark) : Prop where
  printable : ∀ c ∈ lead, isPrintable c = true
  visible : isVacantLine lead = false
  indentation : ∀ rest, indentation (lead ++ rest) = indent
  bare : lineMarks none 0 lead = some ⟨marks, none⟩
  value : ∀ {chars}, StandsAlone chars →
    lineMarks none 0 (lead ++ ' ' :: chars) = (lineValue parent chars).map (.afterAll marks)

theorem LeadsValue.dash (column : Nat) :
    LeadsValue (margin column ++ ['-']) column column [.dash column] where
  printable := by
    intro c member
    rcases List.mem_append.1 member with member | member
    · exact isPrintable_of_mem_margin member
    · rw [List.mem_singleton.1 member]
      rfl
  visible := by
    rw [isVacantLine_margin_append]
    rfl
  indentation := by
    intro rest
    rw [List.append_assoc, indentation_margin_append]
    simp [Yaml.indentation]
  bare := by
    rw [lineMarks_margin_append, Nat.zero_add]
    rfl
  value := by
    intro chars alone
    rw [List.append_assoc, lineMarks_margin_append, Nat.zero_add]
    simp only [List.cons_append, List.nil_append]
    rw [lineMarks, if_neg (by decide), if_pos (by rfl), lineMarks, if_pos (by rfl),
      alone.lineMarks]
    rfl

/-- No text on one line starts with a space. -/
theorem exists_inline_eq_cons (text : String) :
    ∃ c rest, inline text.toList = c :: rest ∧ c ≠ ' ' := by
  have scalar := lineScalar_inline text .nil
  rw [List.append_nil] at scalar
  cases shape : inline text.toList with
  | nil =>
    rw [shape] at scalar
    cases scalar
  | cons c rest =>
    rw [shape] at scalar
    refine ⟨c, rest, rfl, ?_⟩
    rintro rfl
    cases (starts_of_lineScalar scalar).1

/-- A key with its colon is read as its mark, whatever value follows. -/
theorem lineMarks_key (key : String) {rest : List Char} (blank : blankNext rest = true)
    (dash : Option Nat) (column : Nat) :
    lineMarks dash column (inline key.toList ++ ':' :: rest) =
      (lineValue column (rest.dropWhile isSpaceOrTab)).map
        (.after (.key column (textContent key))) := by
  have scalar := lineScalar_inline key (.colon blank)
  have isKey : lineKey? (inline key.toList ++ ':' :: rest) =
      some (textContent key, rest.dropWhile isSpaceOrTab) := by
    rw [lineKey?, scalar]
    simp [blank]
  cases shape : inline key.toList ++ ':' :: rest with
  | nil =>
    rw [shape] at scalar
    cases scalar
  | cons c tail =>
    rw [shape] at scalar isKey
    obtain ⟨notBlank, notDash, _⟩ := starts_of_lineScalar scalar
    have notSpace : c ≠ ' ' := by
      rintro rfl
      cases notBlank
    rw [lineMarks, if_neg (by simp [notSpace]), notDash, isKey]
    rfl

theorem Leads.key {lead : Line} {indent column : Nat} {marks : List Mark}
    (h : Leads lead indent column marks) (key : String) :
    LeadsValue (lead ++ inline key.toList ++ [':']) indent column
      (marks ++ [.key column (textContent key)]) where
  printable := by
    intro c member
    rcases List.mem_append.1 member with member | member
    · rcases List.mem_append.1 member with member | member
      · exact h.printable c member
      · exact isPrintable_of_mem_inline member
    · rw [List.mem_singleton.1 member]
      rfl
  visible := by simp [isVacantLine]
  indentation := by
    intro rest
    obtain ⟨c, tail, shape, notSpace⟩ := exists_inline_eq_cons key
    rw [shape, List.append_assoc, List.append_assoc, List.cons_append]
    exact h.indentation c _ notSpace
  bare := by
    obtain ⟨dash, leads⟩ := h.lineMarks
    rw [List.append_assoc, leads, lineMarks_key key (by rfl)]
    rfl
  value := by
    intro chars alone
    obtain ⟨dash, leads⟩ := h.lineMarks
    simp only [List.append_assoc, List.cons_append, List.nil_append]
    rw [leads, lineMarks_key key (by rfl), List.dropWhile_cons_of_pos (by rfl), alone.dropWhile]
    exact LineMarks.map_afterAll_afterAll marks [.key column (textContent key)] _

/-! ## Values -/

namespace LeadsValue

variable {lead : Line} {above : Bool} {indent parent column : Nat} {marks below : List Mark}

/-- A line with a dash or key at its end, and what it opens further down. -/
theorem readsAs_append (h : LeadsValue lead indent parent marks) {lower : Layout} {inner : Nat}
    (next : lower.ReadsAs false inner column below) :
    (Layout.line lead ++ lower).ReadsAs above indent column (marks ++ below) := by
  suffices first : (Layout.line lead).ReadsAs above indent inner marks from first.append next
  refine ⟨by simp, ?_, ?_, ?_⟩
  · intro line member
    rw [List.mem_singleton.1 member]
    exact h.printable
  · intro rest
    have indented := h.indentation []
    rw [List.append_nil] at indented
    exact .line h.visible indented.le
  · exact fun rest _ => marksOf_cons_of_unopened h.bare rest

/-- A line with a value, and the lines of the block that it opens. -/
theorem readsAs_value (h : LeadsValue lead indent parent marks) {chars : List Char}
    (printable : ∀ c ∈ chars, isPrintable c = true) (body : List Line) (keeps : Bool)
    (bodyPrintable : ∀ line ∈ body, ∀ c ∈ line, isPrintable c = true)
    (read : ∀ rest, Resumes column keeps rest →
      marksOf ((lead ++ ' ' :: chars) :: (body ++ rest)) = (marksOf rest).map (below ++ ·)) :
    (⟨(lead ++ ' ' :: chars) :: body, keeps⟩ : Layout).ReadsAs above indent column below where
  nonempty := by simp
  printable := by
    intro line member
    rcases List.mem_cons.1 member with rfl | member
    · intro c member
      rcases List.mem_append.1 member with member | member
      · exact h.printable c member
      · rcases List.mem_cons.1 member with rfl | member
        · rfl
        · exact printable c member
    · exact bodyPrintable line member
  resumes := by
    intro rest
    refine .line ?_ (h.indentation _).le
    rw [isVacantLine, List.all_append, ← isVacantLine, h.visible, Bool.false_and]
  marksOf_append := read

/-- A value on one line. -/
theorem readsAs_line (h : LeadsValue lead indent parent marks) {chars : List Char}
    {content : Content} (alone : StandsAlone chars)
    (printable : ∀ c ∈ chars, isPrintable c = true)
    (value : lineValue parent chars = some ⟨[.value content], none⟩) :
    (Layout.line (lead ++ ' ' :: chars)).ReadsAs above indent column
      (marks ++ [.value content]) := by
  refine h.readsAs_value printable [] false (by simp) fun rest _ => ?_
  refine marksOf_cons_of_unopened ?_ rest
  rw [h.value alone, value]
  rfl

theorem readsAs_scalarLine (h : LeadsValue lead indent parent marks) {chars : List Char}
    {content : Content} (scalar : lineScalar chars = some (content, []))
    (printable : ∀ c ∈ chars, isPrintable c = true) :
    (Layout.line (lead ++ ' ' :: chars)).ReadsAs above indent column
      (marks ++ [.value content]) :=
  h.readsAs_line (.of_lineScalar scalar) printable (lineValue_of_lineScalar scalar parent)

theorem readsAs_emptySequence (h : LeadsValue lead indent parent marks) :
    (Layout.line (lead ++ " []".toList)).ReadsAs above indent column
      (marks ++ [.value (.sequence [])]) :=
  h.readsAs_line .emptySequence (List.all_eq_true.1 rfl) rfl

theorem readsAs_emptyMapping (h : LeadsValue lead indent parent marks) :
    (Layout.line (lead ++ " \x7b\x7d".toList)).ReadsAs above indent column
      (marks ++ [.value (.mapping [])]) :=
  h.readsAs_line .emptyMapping (List.all_eq_true.1 rfl) rfl

/-- A text as a literal block. -/
theorem readsAs_block (h : LeadsValue lead indent parent marks) (text : String)
    (style : styleOf text.toList = .literal) :
    (⟨(lead ++ ' ' :: (LiteralBlock.ofText text.toList).header) ::
        (LiteralBlock.ofText text.toList).body (parent + 2),
      (LiteralBlock.ofText text.toList).keeps⟩ : Layout).ReadsAs above indent parent
      (marks ++ [.value (textContent text)]) := by
  refine h.readsAs_value (fun _ => LiteralBlock.isPrintable_of_mem_header) _ _
    (fun _ inBody _ => LiteralBlock.isPrintable_of_mem_body style inBody) fun rest resumes => ?_
  have opened := h.value (.header (LiteralBlock.ofText text.toList))
  rw [LiteralBlock.lineValue_header] at opened
  have content : Content.scalar false (.ofList text.toList) = textContent text := by
    simp [textContent, style]
  rw [marksOf_cons_of_opened opened, LiteralBlock.read_body style resumes,
    marksOf_dropWhile_isEmpty, content]
  simp

/-- **A scalar is read back, in whatever way it is written.** -/
theorem readsAs_scalar (h : LeadsValue lead indent parent marks) (belowKey : Bool)
    (value : Scalar) :
    (scalarLayout lead (parent + 2) belowKey value).ReadsAs above indent parent
      (marks ++ [.value value.content]) := by
  unfold scalarLayout Scalar.content
  split
  · rename_i typed
    exact h.readsAs_scalarLine (Scalar.lineScalar_bareText typed)
      (Scalar.isBare_bareText typed).isPrintable
  · dsimp only
    split
    · rename_i style
      split
      · have quoted := lineScalar_doubleQuoted value.text []
        have content : textContent value.text = .scalar false value.text := by
          simp [textContent, style]
        rw [List.append_nil] at quoted
        rw [content]
        exact h.readsAs_scalarLine quoted fun _ => isPrintable_of_mem_doubleQuoted
      · exact h.readsAs_block value.text style
    · have scalar := lineScalar_inline value.text .nil
      rw [List.append_nil] at scalar
      exact h.readsAs_scalarLine scalar fun _ => isPrintable_of_mem_inline

end LeadsValue

/-! ## Nodes -/

mutual

/-- **An entry of a mapping is read as its key and the marks of its value.** -/
theorem readsAs_entryLayout (spaced : Bool) {lead : Line} {indent column : Nat}
    {marks : List Mark} (leads : Leads lead indent column marks) (key : String) (node : Node)
    (above : Bool) :
    (entryLayout spaced lead column key node).ReadsAs above indent column
      (marks ++ .key column (textContent key) :: node.marks column (column + 2)) := by
  have leadsValue := leads.key key
  have split : marks ++ .key column (textContent key) :: node.marks column (column + 2) =
      (marks ++ [.key column (textContent key)]) ++ node.marks column (column + 2) := by simp
  rw [split]
  match node with
  | .scalar value => exact leadsValue.readsAs_scalar true value
  | .sequence [] =>
    have shape : lead ++ inline key.toList ++ ": []".toList =
        (lead ++ inline key.toList ++ [':']) ++ " []".toList := by simp
    rw [entryLayout, shape]
    exact leadsValue.readsAs_emptySequence
  | .mapping [] =>
    have shape : lead ++ inline key.toList ++ ": \x7b\x7d".toList =
        (lead ++ inline key.toList ++ [':']) ++ " \x7b\x7d".toList := by simp
    rw [entryLayout, shape]
    exact leadsValue.readsAs_emptyMapping
  | .sequence (item :: items) =>
    exact leadsValue.readsAs_append
      (readsAs_sequenceLayout spaced column (item :: items) (List.cons_ne_nil item items) none)
  | .mapping (entry :: entries) =>
    exact leadsValue.readsAs_append
      ((readsAs_mappingLayout spaced (.margin (column + 2)) (entry :: entries)
        (List.cons_ne_nil entry entries) false).mono (Nat.le_add_right column 2))

theorem readsAs_mappingLayout (spaced : Bool) {lead : Line} {indent column : Nat}
    {marks : List Mark} (leads : Leads lead indent column marks) (entries : List (String × Node))
    (nonempty : entries ≠ []) (above : Bool) :
    (mappingLayout spaced lead column entries).ReadsAs above indent column
      (marks ++ entryMarks column entries) := by
  match entries with
  | [(key, node)] =>
    have read := readsAs_entryLayout spaced leads key node above
    simpa [mappingLayout, entryMarks, Layout.append_empty] using read
  | (key, node) :: next :: others =>
    have first := readsAs_entryLayout spaced leads key node above
    have rest := readsAs_mappingLayout spaced (.margin column) (next :: others)
      (List.cons_ne_nil next others) (entryLayout spaced lead column key node).keeps
    have both := first.append rest
    rw [mappingLayout, entryMarks]
    simpa using both

theorem readsAs_sequenceLayout (spaced : Bool) (column : Nat) (items : List Node)
    (nonempty : items ≠ []) (upon : Option Bool) :
    (sequenceLayout spaced column upon items).ReadsAs (upon.getD false) column column
      (itemMarks column items) := by
  match items with
  | [item] =>
    have read := readsAs_itemLayout spaced column item upon
    simpa [sequenceLayout, itemMarks, Layout.append_empty] using read
  | item :: next :: others =>
    have first := readsAs_itemLayout spaced column item upon
    have rest := readsAs_sequenceLayout spaced column (next :: others)
      (List.cons_ne_nil next others) (some (itemLayout spaced column upon item).keeps)
    have both := first.append rest
    rw [sequenceLayout, itemMarks]
    simpa using both

theorem readsAs_itemLayout (spaced : Bool) (column : Nat) (item : Node) (upon : Option Bool) :
    (itemLayout spaced column upon item).ReadsAs (upon.getD false) column column
      (.dash column :: item.marks (column + 2) (column + 2)) := by
  have leadsValue := LeadsValue.dash column
  match item with
  | .scalar value => exact leadsValue.readsAs_scalar false value
  | .sequence [] =>
    have shape : margin column ++ "- []".toList = (margin column ++ ['-']) ++ " []".toList := by
      simp
    rw [itemLayout, shape]
    exact leadsValue.readsAs_emptySequence
  | .mapping [] =>
    have shape : margin column ++ "- \x7b\x7d".toList =
        (margin column ++ ['-']) ++ " \x7b\x7d".toList := by simp
    rw [itemLayout, shape]
    exact leadsValue.readsAs_emptyMapping
  | .sequence (item :: items) =>
    exact leadsValue.readsAs_append
      ((readsAs_sequenceLayout spaced (column + 2) (item :: items) (List.cons_ne_nil item items)
        none).mono (Nat.le_add_right column 2))
  | .mapping (entry :: entries) =>
    have read (above : Bool) := (readsAs_mappingLayout spaced (.dash column) (entry :: entries)
      (List.cons_ne_nil entry entries) above).mono (Nat.le_add_right column 2)
    cases spaced with
    | false =>
      have shape : itemLayout false column upon (.mapping (entry :: entries)) =
          mappingLayout false (margin column ++ ['-', ' ']) (column + 2) (entry :: entries) :=
        Layout.empty_append (read false).nonempty
      rw [shape]
      exact read _
    | true => exact (read true).gap

end

end AzurePipelines.Yaml
