import AzurePipelines.Proofs.Yaml.RoundTrip
import Mathlib

/-!
# Characters of documents

Which characters stand in the text of a document.  All of them may stand in a YAML stream
(`isAllowed`), but for the last two code points of the basic plane, which are no characters
(`isNoncharacter`) and are written as they are: the text of a document holds one exactly if a text
in its sections does (`Document.toYaml_characters`).

Every text of a node is written somewhere in its layout (`IsWritten`), and every character beyond
ASCII in the layout is one of a text (`Layout.Writes`).
-/

namespace AzurePipelines

namespace Yaml

/-! ## Classes of characters -/

/-- A character that may stand in a stream, and that no reader takes for a mark of the encoding or a
line break, the line feed apart. -/
def isAllowed (c : Char) : Bool :=
  (c == '\n' || c == '\t' || (0x20 ≤ c.toNat && c.toNat ≤ 0x7E) ||
    (0xA0 ≤ c.toNat && c.toNat ≤ 0xD7FF) || (0xE000 ≤ c.toNat && c.toNat ≤ 0xFFFD) ||
    (0x10000 ≤ c.toNat && c.toNat ≤ 0x10FFFF)) &&
  c != '\ufeff' && c != '\u2028' && c != '\u2029'

/-- One of the last two code points of the basic plane. -/
def isNoncharacter (c : Char) : Bool := c == '\ufffe' || c == '\uffff'

/-- The noncharacters are all that is neither allowed nor called unprintable. -/
theorem isAllowed_eq (c : Char) : isAllowed c = (!isUnprintable c && !isNoncharacter c) := by
  have valid : c.toNat < 0xD800 ∨ 0xDFFF < c.toNat ∧ c.toNat < 0x110000 := c.valid
  have code (d : Char) : (c = d) = (c.toNat = d.toNat) := propext Char.toNat_inj.symm
  rw [Bool.eq_iff_iff]
  simp [isAllowed, isNoncharacter, isUnprintable, Text.isControl, code]
  omega

/-- What is printable is allowed or a noncharacter. -/
theorem isAllowed_or_of_isPrintable {c : Char} (h : isPrintable c = true) :
    isAllowed c = true ∨ isNoncharacter c = true := by
  rw [isPrintable, Bool.and_eq_true] at h
  rw [isAllowed_eq, h.1, Bool.true_and]
  cases isNoncharacter c <;> simp

theorem isPrintable_of_isNoncharacter {c : Char} (h : isNoncharacter c = true) :
    isPrintable c = true := by
  simp only [isNoncharacter, Bool.or_eq_true, beq_iff_eq] at h
  rcases h with rfl | rfl <;> decide

theorem lt_toNat_of_isNoncharacter {c : Char} (h : isNoncharacter c = true) : 0x7F < c.toNat := by
  simp only [isNoncharacter, Bool.or_eq_true, beq_iff_eq] at h
  rcases h with rfl | rfl <;> decide

/-! ## Texts of nodes -/

mutual

/-- The keys of a node and the texts that are not typed, in the order in which they are written. -/
def Node.texts : Node → List String
  | .scalar value => if value.isTyped then [] else [value.text]
  | .sequence items => itemTexts items
  | .mapping entries => entryTexts entries

def itemTexts : List Node → List String
  | [] => []
  | item :: items => item.texts ++ itemTexts items

def entryTexts : List (String × Node) → List String
  | [] => []
  | (key, node) :: entries => key :: (node.texts ++ entryTexts entries)

end

/-! ## Written texts -/

/-- The text stands in the lines: as on one line, in double quotes, or as a literal block. -/
inductive IsWritten (lines : List Line) (text : List Char) : Prop
  | inline {line : Line} : line ∈ lines → Yaml.inline text <:+: line → IsWritten lines text
  | quoted {line : Line} : line ∈ lines → doubleQuoted text <:+: line → IsWritten lines text
  | block {column : Nat} : styleOf text = .literal →
    (LiteralBlock.ofText text).body column ⊆ lines → IsWritten lines text

theorem IsWritten.mono {lines others : List Line} {text : List Char} (h : IsWritten lines text)
    (subset : lines ⊆ others) : IsWritten others text := by
  cases h with
  | inline member part => exact .inline (subset member) part
  | quoted member part => exact .quoted (subset member) part
  | block literal body => exact .block literal (List.Subset.trans body subset)

theorem toNat_of_mem_fourHexDigits {n : Nat} {d : Char} (member : d ∈ fourHexDigits n) :
    d.toNat ≤ 0x7F := by
  have ascii : ∀ k < 16, (upperHexDigit k).toNat ≤ 0x7F := by decide
  obtain ⟨k, inDigits, rfl⟩ := List.mem_map.1 member
  simp only [List.mem_cons, List.not_mem_nil, or_false] at inDigits
  rcases inDigits with rfl | rfl | rfl | rfl <;> exact ascii _ (Nat.mod_lt _ (by decide))

/-- What is beyond ASCII between double quotes stands for itself. -/
theorem eq_of_mem_escaped {c d : Char} (member : d ∈ escaped c) (beyond : 0x7F < d.toNat) :
    d = c := by
  rcases escaped_cases c with ⟨_, e, letter, shape⟩ | ⟨_, shape⟩ | ⟨_, shape⟩
  · rw [shape, List.mem_cons, List.mem_singleton] at member
    have letters : ['\\', '"', 'n', 'r', 't', '0'].all (·.toNat ≤ 0x7F) = true := rfl
    have ascii := of_decide_eq_true (List.all_eq_true.1 letters e letter)
    rcases member with rfl | rfl
    · contradiction
    · omega
  · rw [shape, List.mem_cons, List.mem_cons] at member
    rcases member with rfl | rfl | member
    · contradiction
    · contradiction
    · have ascii := toNat_of_mem_fourHexDigits member
      omega
  · rwa [shape, List.mem_singleton] at member

/-- What is unprintable has an escape. -/
theorem escaped_mem_of_isUnprintable {c : Char} (h : isUnprintable c = true) :
    escaped c ∈ [['\\', 'r'], ['\\', '0'], '\\' :: 'u' :: fourHexDigits c.toNat] := by
  rcases escaped_cases c with ⟨short, _⟩ | ⟨_, shape⟩ | ⟨printable, _⟩
  · simp only [List.mem_cons, List.not_mem_nil, or_false] at short
    rcases short with rfl | rfl | rfl | rfl | rfl | rfl
    · cases h
    · cases h
    · cases h
    · exact List.mem_cons_self
    · cases h
    · exact List.mem_cons_of_mem _ List.mem_cons_self
  · rw [shape]
    exact List.mem_cons_of_mem _ (List.mem_cons_of_mem _ List.mem_cons_self)
  · simp [isPrintable, h] at printable

/-- What is printable and beyond ASCII has no escape. -/
theorem escaped_eq_self {c : Char} (printable : isPrintable c = true) (beyond : 0x7F < c.toNat) :
    escaped c = [c] := by
  rcases escaped_cases c with ⟨short, _⟩ | ⟨unprintable, _⟩ | ⟨_, shape⟩
  · have ascii : ['\\', '"', '\n', '\r', '\t', '\x00'].all (·.toNat ≤ 0x7F) = true := rfl
    have bound := of_decide_eq_true (List.all_eq_true.1 ascii c short)
    omega
  · simp [isPrintable, unprintable] at printable
  · exact shape

section BeyondAscii

variable {c : Char} {text : List Char}

theorem mem_of_mem_doubleQuoted (beyond : 0x7F < c.toNat) (member : c ∈ doubleQuoted text) :
    c ∈ text := by
  simp only [doubleQuoted, List.mem_append, List.mem_cons, List.mem_flatMap, List.not_mem_nil,
    or_false] at member
  rcases member with (rfl | ⟨d, inText, member⟩) | rfl
  · contradiction
  · rwa [eq_of_mem_escaped member beyond]
  · contradiction

theorem mem_of_mem_quoted (beyond : 0x7F < c.toNat) (member : c ∈ Text.quoted text) :
    c ∈ text := by
  simp only [Text.quoted, Text.doubleQuotes, List.mem_append, List.mem_cons, List.mem_flatMap,
    List.not_mem_nil, or_false] at member
  rcases member with (rfl | ⟨d, inText, member⟩) | rfl
  · contradiction
  · split at member
    · simp only [List.mem_cons, List.not_mem_nil, or_false, or_self] at member
      subst member
      contradiction
    · rwa [List.mem_singleton.1 member]
  · contradiction

theorem mem_of_mem_inline (beyond : 0x7F < c.toNat) (member : c ∈ inline text) : c ∈ text := by
  unfold inline at member
  split at member
  · exact member
  · exact mem_of_mem_quoted beyond member
  · exact mem_of_mem_doubleQuoted beyond member
  · exact mem_of_mem_doubleQuoted beyond member

theorem mem_doubleQuoted_of_mem (printable : isPrintable c = true) (beyond : 0x7F < c.toNat)
    (member : c ∈ text) : c ∈ doubleQuoted text := by
  have itself : c ∈ escaped c := by
    rw [escaped_eq_self printable beyond]
    exact List.mem_singleton_self c
  simp only [doubleQuoted, List.mem_append, List.mem_cons, List.mem_flatMap]
  exact .inl (.inr ⟨c, member, itself⟩)

theorem mem_inline_of_mem (printable : isPrintable c = true) (beyond : 0x7F < c.toNat)
    (member : c ∈ text) : c ∈ inline text := by
  unfold inline
  split
  · exact member
  · have notQuote : c ≠ '\x27' := by
      rintro rfl
      contradiction
    simp only [Text.quoted, Text.doubleQuotes, List.mem_append, List.mem_cons, List.mem_flatMap]
    exact .inl (.inr ⟨c, member, by simp [notQuote]⟩)
  · exact mem_doubleQuoted_of_mem printable beyond member
  · exact mem_doubleQuoted_of_mem printable beyond member

/-- A printable character beyond ASCII stands wherever its text is written. -/
theorem IsWritten.exists_mem {lines : List Line} (h : IsWritten lines text)
    (printable : isPrintable c = true) (beyond : 0x7F < c.toNat) (member : c ∈ text) :
    ∃ line ∈ lines, c ∈ line := by
  cases h with
  | inline inLines part =>
    exact ⟨_, inLines, part.subset (mem_inline_of_mem printable beyond member)⟩
  | quoted inLines part =>
    exact ⟨_, inLines, part.subset (mem_doubleQuoted_of_mem printable beyond member)⟩
  | @block column literal body =>
    have notFeed : c ≠ '\n' := by
      rintro rfl
      contradiction
    obtain ⟨line, inBlock, inLine⟩ := LiteralBlock.exists_mem_lines member notFeed
    have filled : line.isEmpty = false := by
      cases line with
      | nil => cases inLine
      | cons _ _ => rfl
    refine ⟨margin column ++ line, body ?_, List.mem_append_right _ inLine⟩
    exact List.mem_map.2 ⟨line, inBlock, by simp [filled]⟩

end BeyondAscii

/-! ## Layouts -/

/-- The layout holds these texts, and nothing else beyond ASCII. -/
structure Layout.Writes (layout : Layout) (texts : List String) : Prop where
  written : ∀ text ∈ texts, IsWritten layout.lines text.toList
  origin : ∀ line ∈ layout.lines, ∀ c ∈ line, 0x7F < c.toNat → ∃ text ∈ texts, c ∈ text.toList

namespace Layout

theorem Writes.empty : Layout.empty.Writes [] where
  written := List.forall_mem_nil _
  origin := List.forall_mem_nil _

theorem Writes.gap (above : Option Bool) : (Layout.gap above).Writes [] where
  written := List.forall_mem_nil _
  origin := by
    intro line member c inLine
    unfold Layout.gap at member
    split at member
    · obtain rfl := List.mem_singleton.1 member
      cases inLine
    · cases member

/-- One layout after another holds the texts of both. -/
theorem Writes.append {upper lower : Layout} {first second : List String}
    (h : upper.Writes first) (next : lower.Writes second) :
    (upper ++ lower).Writes (first ++ second) where
  written := by
    rw [lines_append]
    refine List.forall_mem_append.2 ⟨fun text member => ?_, fun text member => ?_⟩
    · exact (h.written text member).mono (List.subset_append_left _ _)
    · exact (next.written text member).mono (List.subset_append_right _ _)
  origin := by
    intro line member c inLine beyond
    rw [lines_append] at member
    rcases List.mem_append.1 member with member | member
    · obtain ⟨text, inTexts, inText⟩ := h.origin line member c inLine beyond
      exact ⟨text, List.mem_append_left _ inTexts, inText⟩
    · obtain ⟨text, inTexts, inText⟩ := next.origin line member c inLine beyond
      exact ⟨text, List.mem_append_right _ inTexts, inText⟩

end Layout

/-! ## Before values -/

/-- What stands on a line so far holds these texts, each as on one line, and nothing else beyond
ASCII. -/
structure Heads (lead : Line) (texts : List String) : Prop where
  written : ∀ text ∈ texts, inline text.toList <:+: lead
  origin : ∀ c ∈ lead, 0x7F < c.toNat → ∃ text ∈ texts, c ∈ text.toList

namespace Heads

variable {lead : Line} {texts : List String}

/-- More characters on the line, all of which are ASCII. -/
theorem append (h : Heads lead texts) {mark : Line} (ascii : mark.all (·.toNat ≤ 0x7F) = true) :
    Heads (lead ++ mark) texts where
  written text member := (h.written text member).trans (List.prefix_append lead mark).isInfix
  origin := by
    intro c member beyond
    rcases List.mem_append.1 member with member | member
    · exact h.origin c member beyond
    · have bound := of_decide_eq_true (List.all_eq_true.1 ascii c member)
      omega

theorem margin (column : Nat) : Heads (Yaml.margin column) [] := by
  have empty : Heads [] [] := ⟨List.forall_mem_nil _, List.forall_mem_nil _⟩
  refine empty.append (List.all_eq_true.2 fun c member => ?_)
  rw [List.eq_of_mem_replicate member]
  decide

/-- A key with its colon. -/
theorem key (h : Heads lead []) (key : String) :
    Heads (lead ++ inline key.toList ++ [':']) [key] := by
  have named : Heads (lead ++ inline key.toList) [key] := by
    refine ⟨List.forall_mem_singleton.2 (List.suffix_append lead _).isInfix, ?_⟩
    intro c member beyond
    rcases List.mem_append.1 member with member | member
    · obtain ⟨_, none, _⟩ := h.origin c member beyond
      cases none
    · exact ⟨key, List.mem_singleton_self key, mem_of_mem_inline beyond member⟩
  exact named.append rfl

/-- The line, and the lines of what is written at its end. -/
theorem writes (h : Heads lead texts) {chars : Line} {body : List Line} {keeps : Bool}
    {more : List String}
    (written : ∀ text ∈ more, IsWritten ((lead ++ chars) :: body) text.toList)
    (origin : ∀ line ∈ chars :: body, ∀ c ∈ line, 0x7F < c.toNat →
      ∃ text ∈ more, c ∈ text.toList) :
    (⟨(lead ++ chars) :: body, keeps⟩ : Layout).Writes (texts ++ more) where
  written := by
    refine List.forall_mem_append.2 ⟨fun text member => ?_, written⟩
    exact .inline List.mem_cons_self
      ((h.written text member).trans (List.prefix_append lead chars).isInfix)
  origin := by
    intro line member c inLine beyond
    obtain ⟨origin, originBody⟩ := List.forall_mem_cons.1 origin
    have ofMore (found : ∃ text ∈ more, c ∈ text.toList) :
        ∃ text ∈ texts ++ more, c ∈ text.toList := by
      obtain ⟨text, inTexts, inText⟩ := found
      exact ⟨text, List.mem_append_right _ inTexts, inText⟩
    rcases List.mem_cons.1 member with rfl | member
    · rcases List.mem_append.1 inLine with inLine | inLine
      · obtain ⟨text, inTexts, inText⟩ := h.origin c inLine beyond
        exact ⟨text, List.mem_append_left _ inTexts, inText⟩
      · exact ofMore (origin c inLine beyond)
    · exact ofMore (originBody line member c inLine beyond)

/-- A line without a text at its end. -/
theorem writes_line (h : Heads lead texts) {mark : Line}
    (ascii : mark.all (·.toNat ≤ 0x7F) = true) : (Layout.line (lead ++ mark)).Writes texts := by
  have whole := h.append ascii
  rw [← List.append_nil texts, ← List.append_nil (lead ++ mark)]
  exact whole.writes (List.forall_mem_nil _) (List.forall_mem_singleton.2 (List.forall_mem_nil _))

theorem writes_bare (h : Heads lead texts) : (Layout.line lead).Writes texts := by
  rw [← List.append_nil lead]
  exact h.writes_line rfl

/-- A text in one of the two ways that take one line. -/
theorem writes_text (h : Heads lead texts) {text : String} {chars : Line}
    (written : chars = inline text.toList ∨ chars = doubleQuoted text.toList) :
    (Layout.line (lead ++ ' ' :: chars)).Writes (texts ++ [text]) := by
  refine h.writes (List.forall_mem_singleton.2 ?_) (List.forall_mem_singleton.2 ?_)
  · have part : chars <:+: lead ++ ' ' :: chars :=
      (List.suffix_append_of_suffix (List.suffix_cons ' ' chars)).isInfix
    rcases written with rfl | rfl
    · exact .inline List.mem_cons_self part
    · exact .quoted List.mem_cons_self part
  · intro c member beyond
    refine ⟨text, List.mem_singleton_self text, ?_⟩
    rcases List.mem_cons.1 member with rfl | member
    · contradiction
    · rcases written with rfl | rfl
      · exact mem_of_mem_inline beyond member
      · exact mem_of_mem_doubleQuoted beyond member

/-- A text as a literal block. -/
theorem writes_block (h : Heads lead texts) {text : String} {column : Nat}
    (literal : styleOf text.toList = .literal) :
    (⟨(lead ++ ' ' :: (LiteralBlock.ofText text.toList).header) ::
        (LiteralBlock.ofText text.toList).body column,
      (LiteralBlock.ofText text.toList).keeps⟩ : Layout).Writes (texts ++ [text]) := by
  refine h.writes (List.forall_mem_singleton.2 (.block literal (List.subset_cons_self _ _))) ?_
  refine List.forall_mem_cons.2 ⟨?_, ?_⟩
  · intro c member beyond
    have marks : (' ' :: (LiteralBlock.ofText text.toList).header) ⊆ [' ', '|', '2', '+', '-'] :=
      List.cons_subset_cons ' ' (LiteralBlock.header_subset _)
    have ascii : [' ', '|', '2', '+', '-'].all (·.toNat ≤ 0x7F) = true := rfl
    have bound := of_decide_eq_true (List.all_eq_true.1 ascii c (marks member))
    omega
  · intro line member c inLine beyond
    refine ⟨text, List.mem_singleton_self text, ?_⟩
    rcases LiteralBlock.mem_of_mem_body member inLine with rfl | inText
    · contradiction
    · exact inText

/-- **A scalar is written in whatever way.** -/
theorem writes_scalar (h : Heads lead texts) (column : Nat) (belowKey : Bool) (value : Scalar) :
    (scalarLayout lead column belowKey value).Writes (texts ++ (Node.scalar value).texts) := by
  unfold scalarLayout Node.texts
  split
  · rename_i typed
    rw [List.append_nil]
    refine h.writes_line (List.all_eq_true.2 fun c member => decide_eq_true ?_)
    rcases List.mem_cons.1 member with rfl | member
    · decide
    · exact (Scalar.isBare_bareText typed).toNat_le c member
  · dsimp only
    split
    · rename_i literal
      split
      · exact h.writes_text (.inr rfl)
      · exact h.writes_block literal
    · exact h.writes_text (.inl rfl)

end Heads

/-! ## Nodes -/

mutual

/-- **An entry of a mapping writes its key and the texts of its value.** -/
theorem writes_entryLayout (spaced : Bool) {lead : Line} (h : Heads lead []) (column : Nat)
    (key : String) (node : Node) :
    (entryLayout spaced lead column key node).Writes (key :: node.texts) := by
  have head := h.key key
  match node with
  | .scalar value => exact head.writes_scalar (column + 2) true value
  | .sequence [] =>
    have shape : lead ++ inline key.toList ++ ": []".toList =
        (lead ++ inline key.toList ++ [':']) ++ " []".toList := by simp
    rw [entryLayout, shape]
    exact head.writes_line rfl
  | .mapping [] =>
    have shape : lead ++ inline key.toList ++ ": \x7b\x7d".toList =
        (lead ++ inline key.toList ++ [':']) ++ " \x7b\x7d".toList := by simp
    rw [entryLayout, shape]
    exact head.writes_line rfl
  | .sequence (item :: items) =>
    exact head.writes_bare.append (writes_sequenceLayout spaced column none (item :: items))
  | .mapping (entry :: entries) =>
    exact head.writes_bare.append
      (writes_mappingLayout spaced (.margin (column + 2)) (column + 2) (entry :: entries))

theorem writes_mappingLayout (spaced : Bool) {lead : Line} (h : Heads lead []) (column : Nat)
    (entries : List (String × Node)) :
    (mappingLayout spaced lead column entries).Writes (entryTexts entries) := by
  match entries with
  | [] => exact .empty
  | (key, node) :: others =>
    exact (writes_entryLayout spaced h column key node).append
      (writes_mappingLayout spaced (.margin column) column others)

theorem writes_sequenceLayout (spaced : Bool) (column : Nat) (above : Option Bool)
    (items : List Node) :
    (sequenceLayout spaced column above items).Writes (itemTexts items) := by
  match items with
  | [] => exact .empty
  | item :: others =>
    exact (writes_itemLayout spaced column above item).append
      (writes_sequenceLayout spaced column _ others)

theorem writes_itemLayout (spaced : Bool) (column : Nat) (above : Option Bool) (item : Node) :
    (itemLayout spaced column above item).Writes item.texts := by
  have dash : Heads (margin column ++ ['-']) [] := (Heads.margin column).append rfl
  match item with
  | .scalar value => exact dash.writes_scalar (column + 2) false value
  | .sequence [] => exact (Heads.margin column).writes_line rfl
  | .mapping [] => exact (Heads.margin column).writes_line rfl
  | .sequence (item :: items) =>
    exact dash.writes_bare.append
      (writes_sequenceLayout spaced (column + 2) none (item :: items))
  | .mapping (entry :: entries) =>
    have lead : Heads (margin column ++ ['-', ' ']) [] := (Heads.margin column).append rfl
    have entriesWritten := writes_mappingLayout spaced lead (column + 2) (entry :: entries)
    cases spaced with
    | false => exact Layout.Writes.empty.append entriesWritten
    | true => exact (Layout.Writes.gap above).append entriesWritten

end

/-! ## Documents -/

theorem writes_sectionsLayout (spaced : Bool) (above : Option Bool)
    (sections : List (String × Node)) :
    (sectionsLayout spaced above sections).Writes (entryTexts sections) := by
  induction sections generalizing above with
  | nil => exact .empty
  | cons entry sections ih =>
    obtain ⟨key, node⟩ := entry
    have first := (Layout.Writes.gap above).append
      (writes_entryLayout spaced (.margin 0) 0 key node)
    exact first.append (ih _)

theorem isPrintable_of_mem_render {spaced : Bool} {sections : List (String × Node)} {c : Char}
    (member : c ∈ (render [] spaced sections).toList) : isPrintable c = true ∨ c = '\n' := by
  rw [toList_render_nil] at member
  obtain ⟨line, inLines, inLine⟩ := List.mem_flatMap.1 member
  rcases List.mem_append.1 inLine with inLine | feed
  · exact .inl (isPrintable_of_mem_sectionsLayout spaced sections line inLines c inLine)
  · exact .inr (List.mem_singleton.1 feed)

/-- A printable character beyond ASCII stands in a document exactly if one of its texts holds it. -/
theorem mem_render_iff {spaced : Bool} {sections : List (String × Node)} {c : Char}
    (printable : isPrintable c = true) (beyond : 0x7F < c.toNat) :
    c ∈ (render [] spaced sections).toList ↔ ∃ text ∈ entryTexts sections, c ∈ text.toList := by
  have writes := writes_sectionsLayout spaced none sections
  have notFeed : c ≠ '\n' := by
    rintro rfl
    contradiction
  rw [toList_render_nil, List.mem_flatMap]
  constructor
  · rintro ⟨line, inLines, inLine⟩
    refine writes.origin line inLines c ?_ beyond
    exact (List.mem_append.1 inLine).resolve_right (by simpa using notFeed)
  · rintro ⟨text, inTexts, inText⟩
    obtain ⟨line, inLines, inLine⟩ :=
      (writes.written text inTexts).exists_mem printable beyond inText
    exact ⟨line, inLines, List.mem_append_left _ inLine⟩

/-- A text with an unprintable character stands in a document in double quotes. -/
theorem doubleQuoted_infix_render {spaced : Bool} {sections : List (String × Node)} {text : String}
    (member : text ∈ entryTexts sections) {c : Char} (inText : c ∈ text.toList)
    (unprintable : isUnprintable c = true) :
    doubleQuoted text.toList <:+: (render [] spaced sections).toList := by
  have style : styleOf text.toList = .doubleQuoted := by
    have found : text.toList.any isUnprintable = true := List.any_eq_true.2 ⟨c, inText, unprintable⟩
    rw [styleOf, if_pos found]
  have onLine {line : Line} (inLines : line ∈ (sectionsLayout spaced none sections).lines) :
      line <:+: (render [] spaced sections).toList := by
    rw [toList_render_nil, List.flatMap_def]
    exact (List.prefix_append line ['\n']).isInfix.trans
      (List.infix_of_mem_flatten (List.mem_map_of_mem inLines))
  cases (writes_sectionsLayout spaced none sections).written text member with
  | inline inLines part =>
    rw [inline, style] at part
    exact part.trans (onLine inLines)
  | quoted inLines part => exact part.trans (onLine inLines)
  | block literal _ =>
    rw [style] at literal
    cases literal

end Yaml

/-! ## Documents -/

namespace Document

/-- **Which characters stand in a document.**  In the text of a document without a header stand
allowed characters and noncharacters only; it holds no noncharacter exactly if no text in its
sections does; and a text with any other character that is not allowed is written between double
quotes, with an escape for each such character. -/
theorem toYaml_characters {config : SerializerConfig} {document : Document} {text : String}
    (header : config.header = []) (written : document.toYaml config = .ok text) :
    (∀ c ∈ text.toList, Yaml.isAllowed c = true ∨ Yaml.isNoncharacter c = true) ∧
    ((∀ c ∈ text.toList, Yaml.isAllowed c = true) ↔
      ∀ source ∈ Yaml.entryTexts document.sections, ∀ c ∈ source.toList,
        Yaml.isNoncharacter c = false) ∧
    ∀ source ∈ Yaml.entryTexts document.sections, ∀ c ∈ source.toList,
      Yaml.isAllowed c = false → Yaml.isNoncharacter c = false →
        Yaml.doubleQuoted source.toList <:+: text.toList ∧
        Yaml.escaped c ∈ [['\\', 'r'], ['\\', '0'], '\\' :: 'u' :: Yaml.fourHexDigits c.toNat] := by
  obtain ⟨_, rfl⟩ := toYaml_eq_ok_iff.1 written
  rw [header]
  have all : ∀ c ∈ (Yaml.render [] config.blankLinesBetweenItems document.sections).toList,
      Yaml.isAllowed c = true ∨ Yaml.isNoncharacter c = true := by
    intro c member
    rcases Yaml.isPrintable_of_mem_render member with printable | rfl
    · exact Yaml.isAllowed_or_of_isPrintable printable
    · exact .inl rfl
  refine ⟨all, ⟨fun allowed source inTexts c inText => ?_, fun clean c member => ?_⟩, ?_⟩
  · cases noncharacter : Yaml.isNoncharacter c with
    | false => rfl
    | true =>
      have printable := Yaml.isPrintable_of_isNoncharacter noncharacter
      have beyond := Yaml.lt_toNat_of_isNoncharacter noncharacter
      have both := allowed c ((Yaml.mem_render_iff printable beyond).2 ⟨source, inTexts, inText⟩)
      rw [Yaml.isAllowed_eq, noncharacter] at both
      simp at both
  · refine (all c member).resolve_right fun noncharacter => ?_
    have printable := Yaml.isPrintable_of_isNoncharacter noncharacter
    have beyond := Yaml.lt_toNat_of_isNoncharacter noncharacter
    obtain ⟨source, inTexts, inText⟩ := (Yaml.mem_render_iff printable beyond).1 member
    rw [clean source inTexts c inText] at noncharacter
    cases noncharacter
  · intro source inTexts c inText forbidden noncharacter
    have unprintable : Yaml.isUnprintable c = true := by
      simpa [Yaml.isAllowed_eq, noncharacter] using forbidden
    exact ⟨Yaml.doubleQuoted_infix_render inTexts inText unprintable,
      Yaml.escaped_mem_of_isUnprintable unprintable⟩

/-- A template with one script, which rings a bell under a name that is no character. -/
def bellTemplate : Document :=
  .template [] (.steps [.item { action := .script ⟨"a\x07b", none, false⟩, name := some "\ufffe" }])

/-- The bell has an escape, and the name is written as it is. -/
theorem toYaml_characters_bellTemplate :
    bellTemplate.toYaml {} = .ok "steps:\n- script: \"a\\u0007b\"\n  name: \ufffe\n" ∧
      ¬(∀ c ∈ "steps:\n- script: \"a\\u0007b\"\n  name: \ufffe\n".toList,
        Yaml.isAllowed c = true) ∧
      Yaml.doubleQuoted "a\x07b".toList <:+:
        "steps:\n- script: \"a\\u0007b\"\n  name: \ufffe\n".toList ∧
      Yaml.escaped '\x07' = "\\u0007".toList := by
  have written : bellTemplate.toYaml {} =
      .ok "steps:\n- script: \"a\\u0007b\"\n  name: \ufffe\n" :=
    toYaml_eq_ok_iff.2 ⟨rfl, by decide⟩
  obtain ⟨_, allowed, escapes⟩ := toYaml_characters rfl written
  have script : "a\x07b" ∈ Yaml.entryTexts bellTemplate.sections := by decide
  have name : "\ufffe" ∈ Yaml.entryTexts bellTemplate.sections := by decide
  refine ⟨written, fun all => ?_, (escapes _ script '\x07' (by decide) rfl rfl).1, by decide⟩
  cases allowed.1 all _ name '\ufffe' (by decide)

/-- A noncharacter in a script reaches the document. -/
theorem not_forall_isAllowed_toYaml :
    ¬∀ (config : SerializerConfig) (document : Document) (text : String), config.header = [] →
      document.toYaml config = .ok text → ∀ c ∈ text.toList, Yaml.isAllowed c = true := by
  intro all
  have allowed := all {}
    (.template [] (.steps [.item { action := .script ⟨"\ufffe", none, false⟩ }]))
    "steps:\n- script: \ufffe\n" rfl (toYaml_eq_ok_iff.2 ⟨rfl, by decide⟩) '\ufffe' (by decide)
  cases allowed

end Document

end AzurePipelines
