import AzurePipelines.Proofs.Yaml.Characters
import AzurePipelines.Proofs.Yaml.ImplicitTypes
import AzurePipelines.Proofs.Yaml.Timestamps
import Mathlib

/-!
# Documents under a reader of YAML 1.1

Beside null, booleans and numbers, a reader of YAML 1.1 knows three more types by their text:
timestamps, and two keys that are not taken for texts, the one that merges mappings and the one of a
default value (`IsSpecial`).  No such text has quotes, so that it does not come back as the text
that it was (`readsAsText_textContent_iff`).  A document comes back whole exactly if no text in its
sections is one of these (`Document.keepsEntries_toYaml`).
-/

namespace AzurePipelines

namespace Yaml

/-! ## Texts -/

/-- A text that stands, without quotes, for a timestamp, for the mappings that are merged into one,
or for the default value of a mapping. -/
inductive IsSpecial : List Char → Prop
  | timestamp {text : List Char} : IsTimestamp text → IsSpecial text
  | merge : IsSpecial "<<".toList
  | default : IsSpecial "=".toList

theorem IsSpecial.styleOf {text : List Char} (h : IsSpecial text) : styleOf text = .plain := by
  cases h with
  | timestamp stamp => exact stamp.styleOf
  | merge => decide
  | default => decide

/-- A reader takes the scalar for the text: it has quotes, or it is of no other type. -/
inductive ReadsAsText (text : String) : Content → Prop
  | quoted : ReadsAsText text (.scalar false text)
  | plain : text.toList ≠ [] → ¬IsImplicit text.toList → ¬IsSpecial text.toList →
    ReadsAsText text (.scalar true text)

/-- **A text comes back as the text that it was, unless it is special.** -/
theorem readsAsText_textContent_iff (text : String) :
    ReadsAsText text (textContent text) ↔ ¬IsSpecial text.toList := by
  by_cases plain : styleOf text.toList = .plain
  · have content : textContent text = .scalar true text := by simp [textContent, plain]
    obtain ⟨nonempty, ordinary⟩ := not_isImplicit_of_styleOf plain
    rw [content]
    constructor
    · intro reads
      cases reads with
      | plain _ _ other => exact other
    · exact .plain nonempty ordinary
  · have content : textContent text = .scalar false text := by simp [textContent, plain]
    rw [content]
    exact ⟨fun _ special => plain special.styleOf, fun _ => .quoted⟩

/-! ## Nodes -/

mutual

/-- A reader gets from the content what the node holds: typed scalars as scalars of an implicit
type, all others and the keys of mappings as texts. -/
inductive Keeps : Node → Content → Prop
  | typed {value : Scalar} : value.isTyped = true → IsImplicit value.bareText.toList →
    Keeps (.scalar value) (.scalar true value.bareText)
  | text {value : Scalar} {content : Content} : value.isTyped = false →
    ReadsAsText value.text content → Keeps (.scalar value) content
  | sequence {items : List Node} {contents : List Content} : KeepsItems items contents →
    Keeps (.sequence items) (.sequence contents)
  | mapping {entries : List (String × Node)} {contents : List (Content × Content)} :
    KeepsEntries entries contents → Keeps (.mapping entries) (.mapping contents)

inductive KeepsItems : List Node → List Content → Prop
  | nil : KeepsItems [] []
  | cons {item : Node} {content : Content} {items : List Node} {contents : List Content} :
    Keeps item content → KeepsItems items contents →
    KeepsItems (item :: items) (content :: contents)

inductive KeepsEntries : List (String × Node) → List (Content × Content) → Prop
  | nil : KeepsEntries [] []
  | cons {key : String} {node : Node} {name content : Content} {entries : List (String × Node)}
    {contents : List (Content × Content)} : ReadsAsText key name → Keeps node content →
    KeepsEntries entries contents →
    KeepsEntries ((key, node) :: entries) ((name, content) :: contents)

end

theorem keeps_scalar_iff (value : Scalar) :
    Keeps (.scalar value) value.content ↔
      ∀ text ∈ (Node.scalar value).texts, ¬IsSpecial text.toList := by
  cases typed : value.isTyped with
  | true =>
    have content : value.content = .scalar true value.bareText := by simp [Scalar.content, typed]
    rw [content]
    simpa [Node.texts, typed] using Keeps.typed typed (Scalar.isImplicit_bareText typed)
  | false =>
    have content : value.content = textContent value.text := by simp [Scalar.content, typed]
    have texts : (Node.scalar value).texts = [value.text] := by simp [Node.texts, typed]
    have reads (content : Content) :
        Keeps (.scalar value) content ↔ ReadsAsText value.text content := by
      constructor
      · intro keeps
        cases keeps with
        | typed isTyped _ =>
          rw [isTyped] at typed
          cases typed
        | text _ reads => exact reads
      · exact .text typed
    rw [content, texts, List.forall_mem_singleton, reads, readsAsText_textContent_iff]

mutual

/-- A node comes back whole exactly if none of its texts is special. -/
theorem keeps_content_iff (node : Node) :
    Keeps node node.content ↔ ∀ text ∈ node.texts, ¬IsSpecial text.toList := by
  match node with
  | .scalar value => exact keeps_scalar_iff value
  | .sequence items =>
    rw [Node.texts, ← keepsItems_iff items, Node.content]
    constructor
    · intro keeps
      cases keeps with
      | sequence all => exact all
    · exact .sequence
  | .mapping entries =>
    rw [Node.texts, ← keepsEntries_iff entries, Node.content]
    constructor
    · intro keeps
      cases keeps with
      | mapping all => exact all
    · exact .mapping

theorem keepsItems_iff (items : List Node) :
    KeepsItems items (itemContents items) ↔ ∀ text ∈ itemTexts items, ¬IsSpecial text.toList := by
  match items with
  | [] => exact ⟨fun _ => List.forall_mem_nil _, fun _ => .nil⟩
  | item :: items =>
    rw [itemTexts, itemContents, List.forall_mem_append, ← keeps_content_iff item,
      ← keepsItems_iff items]
    constructor
    · intro keeps
      cases keeps with
      | cons first others => exact ⟨first, others⟩
    · intro keeps
      exact .cons keeps.1 keeps.2

theorem keepsEntries_iff (entries : List (String × Node)) :
    KeepsEntries entries (entryContents entries) ↔
      ∀ text ∈ entryTexts entries, ¬IsSpecial text.toList := by
  match entries with
  | [] => exact ⟨fun _ => List.forall_mem_nil _, fun _ => .nil⟩
  | (key, node) :: entries =>
    rw [entryTexts, entryContents, List.forall_mem_cons, List.forall_mem_append,
      ← readsAsText_textContent_iff key, ← keeps_content_iff node, ← keepsEntries_iff entries]
    constructor
    · intro keeps
      cases keeps with
      | cons name first others => exact ⟨name, first, others⟩
    · intro keeps
      exact .cons keeps.1 keeps.2.1 keeps.2.2

end

end Yaml

/-! ## Documents -/

namespace Document

/-- **A document comes back whole exactly if none of its texts is special.**  A special text stands
in it without quotes, and a reader of YAML 1.1 takes it for a timestamp or for a key of its own. -/
theorem keepsEntries_toYaml {config : SerializerConfig} {document : Document} {text : String}
    (header : config.header = []) (written : document.toYaml config = .ok text) :
    (∃ contents, Yaml.readBlocks text = some contents ∧
      (Yaml.KeepsEntries document.sections contents ↔
        ∀ source ∈ Yaml.entryTexts document.sections, ¬Yaml.IsSpecial source.toList)) ∧
    ∀ source ∈ Yaml.entryTexts document.sections,
      (Yaml.IsSpecial source.toList → Yaml.styleOf source.toList = .plain) ∧
        (Yaml.ReadsAsText source (Yaml.textContent source) ↔ ¬Yaml.IsSpecial source.toList) :=
  ⟨⟨_, readBlocks_toYaml header written, Yaml.keepsEntries_iff document.sections⟩,
    fun source _ => ⟨Yaml.IsSpecial.styleOf, Yaml.readsAsText_textContent_iff source⟩⟩

/-- A template with one script, in whose environment a date stands under the key that merges
mappings. -/
def mergeTemplate : Document :=
  .template [] (.steps [.item
    { action := .script ⟨"make", none, false⟩
      env := OrderedMap.empty.insert "<<" (.text "2024-01-01") }])

/-- Neither the date nor its key has quotes, and both are lost. -/
theorem keepsEntries_toYaml_mergeTemplate :
    mergeTemplate.toYaml {} = .ok "steps:\n- script: make\n  env:\n    <<: 2024-01-01\n" ∧
      ∃ contents,
        Yaml.readBlocks "steps:\n- script: make\n  env:\n    <<: 2024-01-01\n" = some contents ∧
          ¬Yaml.KeepsEntries mergeTemplate.sections contents := by
  have written : mergeTemplate.toYaml {} =
      .ok "steps:\n- script: make\n  env:\n    <<: 2024-01-01\n" :=
    toYaml_eq_ok_iff.2 ⟨rfl, by decide⟩
  obtain ⟨⟨contents, read, keeps⟩, -⟩ := keepsEntries_toYaml rfl written
  have key : "<<" ∈ Yaml.entryTexts mergeTemplate.sections := by decide
  exact ⟨written, contents, read, fun all => keeps.1 all "<<" key .merge⟩

/-- A date, the key that merges mappings and the key of a default value are plain texts. -/
theorem not_forall_plain_ordinary :
    (¬∀ text : List Char, Yaml.styleOf text = .plain → ¬Yaml.IsTimestamp text) ∧
      (¬∀ text : List Char, Yaml.styleOf text = .plain → text ≠ "<<".toList) ∧
      ¬∀ text : List Char, Yaml.styleOf text = .plain → text ≠ "=".toList := by
  refine ⟨fun all => ?_, fun all => all _ (by decide) rfl, fun all => all _ (by decide) rfl⟩
  have date : Yaml.IsTimestamp "2024-01-01".toList :=
    @Yaml.IsTimestamp.date "2024".toList "01".toList "01".toList rfl rfl rfl
  exact all _ (by decide) date

end Document

end AzurePipelines
