import AzurePipelines.Proofs.Yaml.LayoutMarks
import AzurePipelines.Serialization
import Mathlib

/-!
# Documents are read back

The text of a document without a header, read by the block rules of YAML, is the content of the
sections that were laid out (`readBlocks_render`): every key and value in its place and order, every
text as it was, and every typed scalar as its bare text.  With it every document that has a text is
read back from it (`Document.readBlocks_toYaml`).
-/

namespace AzurePipelines

namespace Yaml

/-! ## Lines of a text -/

theorem withLineFeeds_of_isPrintable {text : List Char}
    (h : ∀ c ∈ text, isPrintable c = true ∨ c = '\n') : withLineFeeds text = text := by
  induction text with
  | nil => rfl
  | cons c text ih =>
    have tail := ih fun d member => h d (List.mem_cons_of_mem c member)
    have notCarriage : c ≠ '\r' := by
      rintro rfl
      rcases h '\r' List.mem_cons_self with printable | feed
      · cases printable
      · cases feed
    have notNext : c ≠ '\x85' := by
      rintro rfl
      rcases h '\x85' List.mem_cons_self with printable | feed
      · cases printable
      · cases feed
    rw [withLineFeeds]
    · simp [notCarriage, notNext, tail]
    · exact fun _ isCarriage _ => notCarriage isCarriage

theorem linesOf_append_lineFeed {line : Line} (unbroken : ∀ c ∈ line, isBreak c = false)
    (rest : List Char) : linesOf (line ++ '\n' :: rest) = (line ++ ['\n']) :: linesOf rest := by
  induction line with
  | nil => rw [List.nil_append, linesOf, if_pos (by rfl), List.nil_append]
  | cons c line ih =>
    have tail := ih fun d member => unbroken d (List.mem_cons_of_mem c member)
    rw [List.cons_append, linesOf, unbroken c List.mem_cons_self, tail]
    rfl

/-- The lines that are written are the lines that are read. -/
theorem linesRead_flatMap {lines : List Line}
    (printable : ∀ line ∈ lines, ∀ c ∈ line, isPrintable c = true) :
    linesRead (lines.flatMap (· ++ ['\n'])) = lines := by
  have written : ∀ c ∈ lines.flatMap (· ++ ['\n']), isPrintable c = true ∨ c = '\n' := by
    intro c member
    obtain ⟨line, inLines, inLine⟩ := List.mem_flatMap.1 member
    rcases List.mem_append.1 inLine with inLine | feed
    · exact .inl (printable line inLines c inLine)
    · exact .inr (List.mem_singleton.1 feed)
  rw [linesRead, withLineFeeds_of_isPrintable written]
  clear written
  induction lines with
  | nil => rfl
  | cons line lines ih =>
    have unbroken : ∀ c ∈ line, isBreak c = false := fun c member =>
      isBreak_eq_false_of_isPrintable (printable line List.mem_cons_self c member)
    have tail := ih fun other member => printable other (List.mem_cons_of_mem line member)
    have whole : (line ++ ['\n']).takeWhile (!isBreak ·) = line := by
      rw [List.takeWhile_append_of_pos (by simpa using unbroken),
        List.takeWhile_cons_of_neg (by decide), List.append_nil]
    rw [List.flatMap_cons, List.append_assoc, List.singleton_append,
      linesOf_append_lineFeed unbroken, List.map_cons, whole, tail]

/-! ## Sections -/

/-- Sections are read as one mapping, with or without empty lines between them. -/
theorem readsAs_sectionsLayout (spaced : Bool) {sections : List (String × Node)}
    (nonempty : sections ≠ []) (upon : Option Bool) :
    (sectionsLayout spaced upon sections).ReadsAs (upon.getD false) 0 0
      (entryMarks 0 sections) := by
  induction sections generalizing upon with
  | nil => exact absurd rfl nonempty
  | cons entry sections ih =>
    obtain ⟨key, node⟩ := entry
    have first : (Layout.gap upon ++ entryLayout spaced [] 0 key node).ReadsAs (upon.getD false) 0 0
        (.key 0 (textContent key) :: node.marks 0 2) :=
      (readsAs_entryLayout spaced (.margin 0) key node true).gap
    rw [sectionsLayout, entryMarks]
    cases sections with
    | nil => simpa [sectionsLayout, entryMarks, Layout.append_empty] using first
    | cons next sections =>
      have rest := ih (List.cons_ne_nil next sections)
        (some (Layout.gap upon ++ entryLayout spaced [] 0 key node).keeps)
      have both := first.append rest
      simpa using both

/-- All lines of a document are printable. -/
theorem isPrintable_of_mem_sectionsLayout (spaced : Bool) (sections : List (String × Node)) :
    ∀ line ∈ (sectionsLayout spaced none sections).lines, ∀ c ∈ line, isPrintable c = true := by
  cases sections with
  | nil => exact List.forall_mem_nil _
  | cons entry sections =>
    exact (readsAs_sectionsLayout spaced (List.cons_ne_nil entry sections) none).printable

/-- Without a header the text of a document is that of its layout. -/
theorem toList_render_nil (spaced : Bool) (sections : List (String × Node)) :
    (render [] spaced sections).toList =
      (sectionsLayout spaced none sections).lines.flatMap (· ++ ['\n']) := by
  simp [render, headerLines, Layout.text]

/-- **The sections of a document are read back from its text.** -/
theorem readBlocks_render (spaced : Bool) (sections : List (String × Node)) :
    readBlocks (render [] spaced sections) = some (entryContents sections) := by
  have text := toList_render_nil spaced sections
  have bottom : marksOf [] = some [] := by rw [marksOf]
  cases sections with
  | nil =>
    have vacant : linesRead ((sectionsLayout spaced none []).lines.flatMap (· ++ ['\n'])) = [] :=
      rfl
    rw [readBlocks, text, vacant, bottom]
    rfl
  | cons entry sections =>
    have read := readsAs_sectionsLayout spaced (List.cons_ne_nil entry sections) none
    have marks := read.marksOf_append [] (.done _)
    rw [List.append_nil, bottom, Option.map_some, List.append_nil] at marks
    rw [readBlocks, text, linesRead_flatMap read.printable, marks, Option.bind_eq_bind,
      Option.bind_some, foldrM_entryMarks (entry :: sections) Outside.nil le_rfl]
    rfl

end Yaml

/-! ## Documents -/

namespace Document

/-- **A document is read back from its text.**  Where the header is empty and the document has a
text, the block rules give the content of its sections. -/
theorem readBlocks_toYaml {config : SerializerConfig} {document : Document} {text : String}
    (header : config.header = []) (written : document.toYaml config = .ok text) :
    Yaml.readBlocks text = some (Yaml.entryContents document.sections) := by
  obtain ⟨_, rfl⟩ := toYaml_eq_ok_iff.1 written
  rw [header]
  exact Yaml.readBlocks_render config.blankLinesBetweenItems document.sections

/-- A template with one script that ends in an empty line. -/
def stepTemplate : Document :=
  .template [] (.steps [.item { action := .script ⟨"a\nb\n\n", none, false⟩ }])

/-- The empty line at the end belongs to the script, and not to the layout. -/
theorem readBlocks_toYaml_stepTemplate :
    stepTemplate.toYaml {} = .ok "steps:\n- script: |+\n    a\n    b\n\n" ∧
      Yaml.readBlocks "steps:\n- script: |+\n    a\n    b\n\n" =
        some [(.scalar true "steps", .sequence [.mapping
          [(.scalar true "script", .scalar false "a\nb\n\n")]])] := by
  have written : stepTemplate.toYaml {} = .ok "steps:\n- script: |+\n    a\n    b\n\n" :=
    toYaml_eq_ok_iff.2 ⟨rfl, by decide⟩
  exact ⟨written, readBlocks_toYaml rfl written⟩

end Document

end AzurePipelines
