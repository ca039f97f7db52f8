import AzurePipelines.Proofs.Yaml.RoundTrip
import Mathlib

/-!
# Headers of documents

The text of a document with a header is that without one below some more lines.  Each line of the
header is marked as a comment, where a line is what ends in a line feed.  A reader knows of other
line breaks too, and finds further lines behind them (`unmarkedLines`): above the document stand
comments only, exactly if all of these are comments or blank by themselves, and then a reader that
passes over comments finds the lines of the document and no other (`Document.toYaml_header`).
-/

namespace AzurePipelines

namespace Yaml

/-- A line above a document that says nothing: it holds blanks only, or is a comment that starts
with three number signs. -/
def isRemark (line : Line) : Bool := line.all isSpaceOrTab || "###".toList.isPrefixOf line

/-- What a reader takes for further lines, behind line breaks other than the line feed, of the lines
of a header. -/
def unmarkedLines (header : List String) : List Line :=
  (header.flatMap fun text => Text.lines text.toList).flatMap fun line =>
    (linesRead (Text.trimEnd line ++ ['\n'])).tail

/-! ## Lines that are read -/

/-- What stands above a line feed is read by itself. -/
theorem exists_withLineFeeds_append (above : List Char) :
    ∃ read, ∀ below, withLineFeeds (above ++ '\n' :: below) =
      read ++ '\n' :: withLineFeeds below := by
  fun_induction withLineFeeds above with
  | case1 rest ih =>
    obtain ⟨read, same⟩ := ih
    exact ⟨'\n' :: read, fun below => by simp [withLineFeeds, same]⟩
  | case2 c rest other ih =>
    by_cases last : c = '\r' ∧ rest = []
    · -- The carriage return is read together with the line feed.
      obtain ⟨rfl, rfl⟩ := last
      exact ⟨[], fun below => by simp [withLineFeeds]⟩
    · obtain ⟨read, same⟩ := ih
      refine ⟨(if c == '\r' || c == '\x85' then '\n' else c) :: read, fun below => ?_⟩
      rw [List.cons_append, withLineFeeds, same, List.cons_append]
      intro next isReturn shape
      cases rest with
      | nil => exact last ⟨isReturn, rfl⟩
      | cons d rest =>
        rw [List.cons_append, List.cons.injEq] at shape
        exact other rest isReturn (by rw [shape.1])
  | case3 => exact ⟨[], fun below => by simp [withLineFeeds]⟩

theorem linesOf_ne_nil {text : List Char} (nonempty : text ≠ []) : linesOf text ≠ [] := by
  intro none
  have whole := flatten_linesOf text
  rw [none] at whole
  exact nonempty whole.symm

theorem linesOf_append (above below : List Char) :
    linesOf (above ++ '\n' :: below) = linesOf (above ++ ['\n']) ++ linesOf below := by
  induction above with
  | nil => simp [linesOf, isBreak]
  | cons c above ih =>
    by_cases breaks : isBreak c = true
    · simp [linesOf, breaks, ih]
    · simp only [List.cons_append, linesOf, breaks, ih]
      cases shape : linesOf (above ++ ['\n']) with
      | nil => exact absurd shape (linesOf_ne_nil (by simp))
      | cons line lines => simp

theorem linesRead_append (above below : List Char) :
    linesRead (above ++ '\n' :: below) = linesRead (above ++ ['\n']) ++ linesRead below := by
  obtain ⟨read, same⟩ := exists_withLineFeeds_append above
  rw [linesRead, linesRead, linesRead, same, same [], withLineFeeds, linesOf_append,
    List.map_append]

/-- Lines that are written are read one by one. -/
theorem linesRead_flatMap_append (lines : List Line) (below : List Char) :
    linesRead (lines.flatMap (· ++ ['\n']) ++ below) =
      lines.flatMap (fun line => linesRead (line ++ ['\n'])) ++ linesRead below := by
  induction lines with
  | nil => rfl
  | cons line lines ih =>
    rw [List.flatMap_cons, List.flatMap_cons, List.append_assoc, List.append_assoc,
      List.singleton_append, linesRead_append, List.append_assoc, ih]

theorem linesRead_append_of_isPrintable {lines : List Line}
    (printable : ∀ line ∈ lines, ∀ c ∈ line, isPrintable c = true) (below : List Char) :
    linesRead (lines.flatMap (· ++ ['\n']) ++ below) = lines ++ linesRead below := by
  have alone := linesRead_flatMap_append lines []
  have nothing : linesRead [] = [] := rfl
  rw [List.append_nil, linesRead_flatMap printable, nothing, List.append_nil] at alone
  rw [linesRead_flatMap_append, ← alone]

/-- A character that breaks no line goes to the line behind it, and is a line if there is none. -/
theorem linesRead_cons_eq {c : Char} (plain : c ∉ ['\n', '\r', '\x85', '\u2028', '\u2029'])
    (text : List Char) :
    linesRead (c :: text) = (c :: (linesRead text).headD []) :: (linesRead text).tail := by
  simp only [List.mem_cons, List.not_mem_nil, or_false, not_or] at plain
  obtain ⟨feed, carriage, next, separator, paragraph⟩ := plain
  have unbreaking : isBreak c = false := by simp [isBreak, feed, separator, paragraph]
  have kept : withLineFeeds (c :: text) = c :: withLineFeeds text := by
    rw [withLineFeeds]
    · simp [carriage, next]
    · exact fun _ isReturn _ => carriage isReturn
  unfold linesRead
  rw [kept, linesOf, unbreaking]
  cases linesOf (withLineFeeds text) with
  | nil => simp [unbreaking]
  | cons first rest => simp [unbreaking]

theorem linesRead_cons {c : Char} {text : List Char} {line : Line} {lines : List Line}
    (plain : c ∉ ['\n', '\r', '\x85', '\u2028', '\u2029']) (h : linesRead text = line :: lines) :
    linesRead (c :: text) = (c :: line) :: lines := by
  rw [linesRead_cons_eq plain, h]
  rfl

theorem linesRead_ne_nil (text : List Char) : linesRead (text ++ ['\n']) ≠ [] := by
  obtain ⟨read, same⟩ := exists_withLineFeeds_append text
  rw [linesRead, same, ne_eq, List.map_eq_nil_iff]
  exact linesOf_ne_nil (by simp)

/-! ## Lines of headers -/

theorem trimEnd_eq_nil {line : List Char} (blank : Text.allBlank line = true) :
    Text.trimEnd line = [] := by
  cases line with
  | nil => rfl
  | cons c line => rw [Text.trimEnd, if_pos blank]

/-- A line of a header starts with its mark, and goes on with what is left of it. -/
theorem linesRead_marked (line : Line) :
    ∃ first, "###".toList <+: first ∧
      linesRead (Text.trimEnd ("### ".toList ++ line) ++ ['\n']) =
        first :: (linesRead (Text.trimEnd line ++ ['\n'])).tail := by
  have mark : Text.isBlank '#' = false := rfl
  have space : Text.isBlank ' ' = true := rfl
  by_cases blank : Text.allBlank line = true
  · refine ⟨"###".toList, List.prefix_rfl, ?_⟩
    simp [Text.trimEnd, mark, space, blank, trimEnd_eq_nil blank]
    decide
  · obtain ⟨first, rest, read⟩ :=
      List.exists_cons_of_ne_nil (linesRead_ne_nil (Text.trimEnd line))
    have marked : Text.trimEnd ("### ".toList ++ line) =
        '#' :: '#' :: '#' :: ' ' :: Text.trimEnd line := by
      simp [Text.trimEnd, mark, space, blank]
    refine ⟨'#' :: '#' :: '#' :: ' ' :: first, ⟨' ' :: first, rfl⟩, ?_⟩
    rw [marked, read, List.tail_cons]
    have spaced := linesRead_cons (c := ' ') (by decide) read
    have third := linesRead_cons (c := '#') (by decide) spaced
    have second := linesRead_cons (c := '#') (by decide) third
    exact linesRead_cons (by decide) second

theorem isRemark_of_marked {line : Line} (h : "###".toList <+: line) : isRemark line = true := by
  rw [isRemark, List.isPrefixOf_iff_prefix.2 h, Bool.or_true]

/-- The lines of a header are remarks, all but those behind other line breaks. -/
theorem forall_mem_linesRead_header_iff (header : List String) :
    (∀ line ∈ linesRead ((headerLines header).flatMap (· ++ ['\n'])), isRemark line = true) ↔
      ∀ line ∈ unmarkedLines header, isRemark line = true := by
  have bare := linesRead_flatMap_append (headerLines header) []
  rw [List.append_nil] at bare
  have nothing : linesRead [] = [] := rfl
  rw [bare, nothing, List.append_nil, headerLines, unmarkedLines]
  cases header with
  | nil => simp
  | cons text texts =>
    rw [List.isEmpty_cons, if_neg Bool.false_ne_true]
    generalize (text :: texts).flatMap (fun text => Text.lines text.toList) = lines
    have bottom : ∀ line ∈ [[]].flatMap fun line : Line => linesRead (line ++ ['\n']),
        isRemark line = true := by decide
    rw [List.flatMap_append, List.forall_mem_append, and_iff_left bottom, List.flatMap_map,
      List.forall_mem_flatMap, List.forall_mem_flatMap]
    refine forall_congr' fun line => imp_congr_right fun _ => ?_
    obtain ⟨first, marked, read⟩ := linesRead_marked line
    rw [read, List.forall_mem_cons, and_iff_right (isRemark_of_marked marked)]

/-! ## Below headers -/

theorem exists_lines_scalarLayout (lead : Line) (column : Nat) (belowKey : Bool) (value : Scalar) :
    ∃ chars below, (scalarLayout lead column belowKey value).lines = (lead ++ chars) :: below := by
  unfold scalarLayout
  split
  · exact ⟨_, [], rfl⟩
  · dsimp only
    split
    · split
      · exact ⟨_, [], rfl⟩
      · exact ⟨_, _, rfl⟩
    · exact ⟨_, [], rfl⟩

/-- An entry starts with its key and a colon. -/
theorem exists_lines_entryLayout (spaced : Bool) (lead : Line) (column : Nat) (key : String)
    (node : Node) : ∃ chars below, (entryLayout spaced lead column key node).lines =
      (lead ++ inline key.toList ++ ':' :: chars) :: below := by
  cases node with
  | scalar value =>
    obtain ⟨chars, below, shape⟩ :=
      exists_lines_scalarLayout (lead ++ inline key.toList ++ [':']) (column + 2) true value
    exact ⟨chars, below, by rw [entryLayout, shape]; simp⟩
  | sequence items =>
    cases items with
    | nil => exact ⟨" []".toList, [], rfl⟩
    | cons item items => exact ⟨[], _, rfl⟩
  | mapping entries =>
    cases entries with
    | nil => exact ⟨" \x7b\x7d".toList, [], rfl⟩
    | cons entry entries => exact ⟨[], _, rfl⟩

/-- No key starts with a blank or a number sign. -/
theorem isRemark_key (key : String) (chars : Line) :
    isRemark (inline key.toList ++ chars) = false := by
  have scalar := lineScalar_inline key .nil
  rw [List.append_nil] at scalar
  cases shape : inline key.toList with
  | nil =>
    rw [shape] at scalar
    cases scalar
  | cons c rest =>
    rw [shape] at scalar
    obtain ⟨notBlank, _⟩ := starts_of_lineScalar scalar
    have notSign : '#' ≠ c := by
      rintro rfl
      cases scalar
    simp [isRemark, notBlank, List.isPrefixOf, notSign]

/-- A document does not start with a remark. -/
theorem dropWhile_isRemark_sections (spaced : Bool) (sections : List (String × Node)) :
    ((sectionsLayout spaced none sections).lines).dropWhile isRemark =
      (sectionsLayout spaced none sections).lines := by
  cases sections with
  | nil => rfl
  | cons entry sections =>
    obtain ⟨key, node⟩ := entry
    obtain ⟨chars, below, shape⟩ := exists_lines_entryLayout spaced [] 0 key node
    have noGap : Layout.gap none ++ entryLayout spaced [] 0 key node =
        entryLayout spaced [] 0 key node := Layout.empty_append (by simp [shape])
    rw [sectionsLayout, noGap, Layout.lines_append, shape, List.cons_append, List.nil_append,
      List.dropWhile_cons_of_neg (by simp [isRemark_key])]

theorem linesRead_render_nil (spaced : Bool) (sections : List (String × Node)) :
    linesRead (render [] spaced sections).toList = (sectionsLayout spaced none sections).lines := by
  rw [toList_render_nil]
  exact linesRead_flatMap (isPrintable_of_mem_sectionsLayout spaced sections)

theorem toList_render (header : List String) (spaced : Bool) (sections : List (String × Node)) :
    (render header spaced sections).toList =
      (headerLines header).flatMap (· ++ ['\n']) ++ (render [] spaced sections).toList := by
  simp [render, headerLines]

/-- The lines of a document with a header are those of the header and those of the document. -/
theorem linesRead_render (header : List String) (spaced : Bool)
    (sections : List (String × Node)) :
    linesRead (render header spaced sections).toList =
      linesRead ((headerLines header).flatMap (· ++ ['\n'])) ++
        linesRead (render [] spaced sections).toList := by
  have alone := linesRead_flatMap_append (headerLines header) []
  rw [List.append_nil] at alone
  have nothing : linesRead [] = [] := rfl
  rw [toList_render, linesRead_flatMap_append, alone, nothing, List.append_nil]

end Yaml

/-! ## Documents -/

namespace Document

/-- **What a header does to a document.**  The text with a header is that without one below some
more lines.  These are remarks exactly if what the header has behind line breaks other than the line
feed are remarks, too; and if so, the lines below all remarks are those of the document without the
header. -/
theorem toYaml_header {config : SerializerConfig} {document : Document} {text : String}
    (written : document.toYaml config = .ok text) :
    ∃ top body, document.toYaml { config with header := [] } = .ok body ∧
      text.toList = top ++ body.toList ∧
      Yaml.linesRead text.toList = Yaml.linesRead top ++ Yaml.linesRead body.toList ∧
      ((∀ line ∈ Yaml.linesRead top, Yaml.isRemark line = true) ↔
        ∀ line ∈ Yaml.unmarkedLines config.header, Yaml.isRemark line = true) ∧
      ((∀ line ∈ Yaml.unmarkedLines config.header, Yaml.isRemark line = true) →
        (Yaml.linesRead text.toList).dropWhile Yaml.isRemark = Yaml.linesRead body.toList) := by
  obtain ⟨faultless, rfl⟩ := toYaml_eq_ok_iff.1 written
  have remarks := Yaml.forall_mem_linesRead_header_iff config.header
  have lines := Yaml.linesRead_render config.header config.blankLinesBetweenItems document.sections
  refine ⟨_, _, toYaml_eq_ok_iff.2 ⟨faultless, rfl⟩, Yaml.toList_render _ _ _, lines, remarks, ?_⟩
  intro marked
  rw [lines, List.dropWhile_append_of_pos (remarks.2 marked), Yaml.linesRead_render_nil,
    Yaml.dropWhile_isRemark_sections]

/-- A separator of lines may stand in a header if a mark follows it. -/
theorem toYaml_header_separated :
    let text := "### made by hand\n### a\u2028### b\n\nsteps:\n- script: |+\n    a\n    b\n\n"
    stepTemplate.toYaml { header := ["made by hand\na\u2028### b "] } = .ok text ∧
      ∃ body, stepTemplate.toYaml {} = .ok body ∧
        (Yaml.linesRead text.toList).dropWhile Yaml.isRemark = Yaml.linesRead body.toList := by
  intro text
  have written : stepTemplate.toYaml { header := ["made by hand\na\u2028### b "] } = .ok text :=
    toYaml_eq_ok_iff.2 ⟨rfl, by decide⟩
  obtain ⟨top, body, same, _, _, _, below⟩ := toYaml_header written
  exact ⟨written, body, same, below (by decide)⟩

/-- A carriage return in a header hides a line from the marks. -/
theorem not_forall_isRemark_header :
    ¬∀ (config : SerializerConfig) (document : Document) (text body : String) (top : List Char),
      document.toYaml config = .ok text → document.toYaml { config with header := [] } = .ok body →
      text.toList = top ++ body.toList →
        ∀ line ∈ Yaml.linesRead top, Yaml.isRemark line = true := by
  intro all
  have remark := all { header := ["a\rtrigger: none"] }
    (.template [] (.steps [.item { action := .script ⟨"make", none, false⟩ }]))
    "### a\rtrigger: none\n\nsteps:\n- script: make\n" "steps:\n- script: make\n"
    "### a\rtrigger: none\n\n".toList (toYaml_eq_ok_iff.2 ⟨rfl, by decide⟩)
    (toYaml_eq_ok_iff.2 ⟨rfl, by decide⟩) (by decide) "trigger: none".toList (by decide)
  cases remark

end Document

end AzurePipelines
