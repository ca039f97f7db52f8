import AzurePipelines.Proofs.Yaml.Descriptions
import Mathlib

/-!
# Data that have no value

A key of a mapping becomes a text.  Null, sequences, mappings and tagged data have none, and what
holds such a key, however deep, is no value (`Datum.IsUnsupported`, `Datum.HasMapping`).

The keys of a datum are read in one order: the entries of a mapping from the first to the last, each
key before what its value holds, and the items of a sequence likewise (`Datum.keys`).  The error of
a conversion names the first key in this order that has no text, so that its message is that of no
other key, and there is an error exactly if there is such a key at all
(`Datum.exists_toValue_error_iff`).
-/

namespace AzurePipelines.Yaml.Datum

/-! ## Mappings and keys inside a datum -/

/-- The entries are those of a mapping in the datum: of the datum itself, of one in an item of a
sequence or in a value of a mapping, or of one below a tag. -/
inductive HasMapping : Datum → List (Datum × Datum) → Prop
  | self {entries : List (Datum × Datum)} : HasMapping (.mapping entries) entries
  | item {items : List Datum} {item : Datum} {entries : List (Datum × Datum)} :
    item ∈ items → HasMapping item entries → HasMapping (.sequence items) entries
  | value {outer entries : List (Datum × Datum)} {entry : Datum × Datum} :
    entry ∈ outer → HasMapping entry.2 entries → HasMapping (.mapping outer) entries
  | tagged {tag : String} {value : Datum} {entries : List (Datum × Datum)} :
    HasMapping value entries → HasMapping (.tagged tag value) entries

/-- A datum that has no text, and so is no key. -/
inductive IsUnsupported : Datum → Prop
  | null : IsUnsupported .null
  | sequence (items : List Datum) : IsUnsupported (.sequence items)
  | mapping (entries : List (Datum × Datum)) : IsUnsupported (.mapping entries)
  | tagged (tag : String) (value : Datum) : IsUnsupported (.tagged tag value)

theorem keyText?_eq_none_iff (key : Datum) : key.keyText? = none ↔ key.IsUnsupported := by
  constructor
  · intro noText
    cases key with
    | null => exact .null
    | sequence items => exact .sequence items
    | mapping entries => exact .mapping entries
    | tagged tag value => exact .tagged tag value
    | _ => cases noText
  · intro unsupported
    cases unsupported <;> rfl

mutual

/-- The keys of all mappings in the datum, in the order in which they are read. -/
def keys : Datum → List Datum
  | .null | .boolean _ | .integer _ | .float _ | .string _ => []
  | .sequence items => itemKeys items
  | .mapping entries => entryKeys entries
  | .tagged _ value => value.keys

def itemKeys : List Datum → List Datum
  | [] => []
  | item :: rest => item.keys ++ itemKeys rest

def entryKeys : List (Datum × Datum) → List Datum
  | [] => []
  | (key, value) :: rest => key :: (value.keys ++ entryKeys rest)

end

theorem mem_itemKeys_iff {items : List Datum} {key : Datum} :
    key ∈ itemKeys items ↔ ∃ item ∈ items, key ∈ item.keys := by
  induction items with
  | nil => simp [itemKeys]
  | cons item rest ih => rw [itemKeys, List.mem_append, ih, List.exists_mem_cons_iff]

theorem mem_entryKeys_iff {entries : List (Datum × Datum)} {key : Datum} :
    key ∈ entryKeys entries ↔ ∃ entry ∈ entries, key = entry.1 ∨ key ∈ entry.2.keys := by
  induction entries with
  | nil => simp [entryKeys]
  | cons entry rest ih =>
    rw [entryKeys, List.mem_cons, List.mem_append, ih, List.exists_mem_cons_iff, or_assoc]

/-- A key of some mapping in the datum is read. -/
theorem HasMapping.mem_keys {d : Datum} {entries : List (Datum × Datum)}
    (inside : d.HasMapping entries) {entry : Datum × Datum} (member : entry ∈ entries) :
    entry.1 ∈ d.keys := by
  induction inside with
  | self => exact mem_entryKeys_iff.2 ⟨entry, member, .inl rfl⟩
  | item itemMember _ ih => exact mem_itemKeys_iff.2 ⟨_, itemMember, ih member⟩
  | value valueMember _ ih => exact mem_entryKeys_iff.2 ⟨_, valueMember, .inr (ih member)⟩
  | tagged _ ih =>
    rw [keys]
    exact ih member

/-- What is read is a key of some mapping in the datum. -/
theorem exists_hasMapping_of_mem_keys {key : Datum} :
    ∀ {d : Datum}, key ∈ d.keys → ∃ entries, d.HasMapping entries ∧ key ∈ entries.map Prod.fst
  | .sequence items, member => by
    rw [keys, mem_itemKeys_iff] at member
    obtain ⟨item, inItems, inItem⟩ := member
    obtain ⟨entries, inside, isKey⟩ := exists_hasMapping_of_mem_keys inItem
    exact ⟨entries, .item inItems inside, isKey⟩
  | .mapping outer, member => by
    rw [keys, mem_entryKeys_iff] at member
    obtain ⟨entry, inOuter, rfl | inValue⟩ := member
    · exact ⟨outer, .self, List.mem_map_of_mem inOuter⟩
    · have : sizeOf entry.2 < 1 + sizeOf outer := by
        have := List.sizeOf_lt_of_mem inOuter
        cases entry
        simp only [Prod.mk.sizeOf_spec] at this ⊢
        omega
      obtain ⟨entries, inside, isKey⟩ := exists_hasMapping_of_mem_keys inValue
      exact ⟨entries, .value inOuter inside, isKey⟩
  | .tagged tag value, member => by
    rw [keys] at member
    obtain ⟨entries, inside, isKey⟩ := exists_hasMapping_of_mem_keys member
    exact ⟨entries, .tagged inside, isKey⟩

/-! ## The first key without a text -/

/-- Of the keys in their order, this is the first that has no text. -/
def IsFirstUnsupported (read : List Datum) (key : Datum) : Prop :=
  ∃ before after, read = before ++ key :: after ∧ (∀ other ∈ before, ¬other.IsUnsupported) ∧
    key.IsUnsupported

/-- A conversion that reads these keys one after the other gives a value if all of them have texts,
and stops at the first that has none. -/
inductive ReadsKeys {β : Type} : List Datum → Except UnsupportedKey β → Prop
  | value {read : List Datum} (b : β) : (∀ key ∈ read, ¬key.IsUnsupported) →
    ReadsKeys read (.ok b)
  | error {read : List Datum} {key : Datum} : IsFirstUnsupported read key →
    ReadsKeys read (.error ⟨key⟩)

namespace ReadsKeys

variable {β γ : Type} {read rest : List Datum} {x : Except UnsupportedKey β}

theorem nil (b : β) : ReadsKeys [] (.ok b) := .value b (List.forall_mem_nil _)

theorem map (h : ReadsKeys read x) (f : β → γ) : ReadsKeys read (x.map f) := by
  cases h with
  | value b supported => exact .value (f b) supported
  | error first => exact .error first

/-- The second of two conversions takes place only if the first gives a value. -/
theorem bind (h : ReadsKeys read x) {f : β → Except UnsupportedKey γ}
    (next : ∀ b, ReadsKeys rest (f b)) : ReadsKeys (read ++ rest) (x >>= f) := by
  cases h with
  | error first =>
    obtain ⟨before, after, rfl, supported, unsupported⟩ := first
    apply ReadsKeys.error
    exact ⟨before, after ++ rest, by simp, supported, unsupported⟩
  | value b supported =>
    have second : ReadsKeys rest (f b) := next b
    change ReadsKeys (read ++ rest) (f b)
    generalize f b = y at second
    cases second with
    | value c others => exact .value c (List.forall_mem_append.2 ⟨supported, others⟩)
    | error first =>
      obtain ⟨before, after, rfl, others, unsupported⟩ := first
      apply ReadsKeys.error
      exact ⟨read ++ before, after, by simp, List.forall_mem_append.2 ⟨supported, others⟩,
        unsupported⟩

/-- A key that has a text is passed. -/
theorem cons (h : ReadsKeys read x) {key : Datum} (supported : ¬key.IsUnsupported) :
    ReadsKeys (key :: read) x := by
  have alone : ReadsKeys [key] (.ok ()) := .value () (by simpa using supported)
  exact alone.bind fun _ => h

theorem exists_error_iff (h : ReadsKeys read x) :
    (∃ e, x = .error e) ↔ ∃ key ∈ read, key.IsUnsupported := by
  cases h with
  | value b supported =>
    constructor
    · rintro ⟨e, impossible⟩
      cases impossible
    · rintro ⟨key, member, unsupported⟩
      exact absurd unsupported (supported key member)
  | error first =>
    obtain ⟨before, after, rfl, -, unsupported⟩ := first
    exact ⟨fun _ => ⟨_, by simp, unsupported⟩, fun _ => ⟨_, rfl⟩⟩

theorem isFirstUnsupported (h : ReadsKeys read x) {e : UnsupportedKey} (failed : x = .error e) :
    IsFirstUnsupported read e.key := by
  cases h with
  | value b supported => cases failed
  | error first =>
    cases failed
    exact first

end ReadsKeys

mutual

/-- A datum is converted along its keys. -/
theorem readsKeys_toValue (d : Datum) : ReadsKeys d.keys d.toValue := by
  match d with
  | .null => exact .nil _
  | .boolean b => exact .nil _
  | .integer n => exact .nil _
  | .float x => exact .nil _
  | .string text => exact .nil _
  | .sequence items =>
    rw [keys, toValue]
    exact (readsKeys_toValues items).map Value.sequence
  | .mapping entries =>
    rw [keys, toValue]
    exact (readsKeys_addEntries .empty entries).map Value.mapping
  | .tagged tag value =>
    rw [keys, toValue]
    exact readsKeys_toValue value

theorem readsKeys_toValues (items : List Datum) : ReadsKeys (itemKeys items) (toValues items) := by
  match items with
  | [] => exact .nil _
  | item :: rest =>
    rw [itemKeys, toValues]
    apply (readsKeys_toValue item).bind
    intro value
    exact (readsKeys_toValues rest).map (value :: ·)

theorem readsKeys_addEntries (done : OrderedMap Value) (entries : List (Datum × Datum)) :
    ReadsKeys (entryKeys entries) (addEntries done entries) := by
  match entries with
  | [] => exact .nil _
  | (key, value) :: rest =>
    rw [entryKeys, addEntries]
    cases text : key.keyText? with
    | none =>
      have unsupported := (keyText?_eq_none_iff key).1 text
      exact .error ⟨[], _, rfl, List.forall_mem_nil _, unsupported⟩
    | some name =>
      have supported : ¬key.IsUnsupported := by
        rw [← keyText?_eq_none_iff, text]
        simp
      apply ReadsKeys.cons _ supported
      apply (readsKeys_toValue value).bind
      intro converted
      exact readsKeys_addEntries (done.insert name converted) rest

end

/-- The messages about two keys are the same exactly if the keys are alike. -/
theorem UnsupportedKey.message_eq_iff {one other : UnsupportedKey} (plain : one.key.HasPlainTags)
    (plain' : other.key.HasPlainTags) : one.message = other.message ↔ one.key.Alike other.key := by
  have texts : one.message = other.message ↔
      one.key.describe false = other.key.describe false := String.append_right_inj _
  exact texts.trans (describe_eq_iff plain plain')

/-- **A datum has no value exactly if it holds a key that has no text.**  The error is about the
first such key, and shows it: no other key has the same message, but for the mark in front of a tag
and for what the text of a floating-point number leaves out. -/
theorem exists_toValue_error_iff (d : Datum) :
    ((∃ e, d.toValue = .error e) ↔
      ∃ entries, d.HasMapping entries ∧ ∃ entry ∈ entries, entry.1.IsUnsupported) ∧
    ∀ e, d.toValue = .error e → IsFirstUnsupported d.keys e.key ∧ UnsupportedKey.path = "value" ∧
      e.message = "schema violation at 'value': unsupported mapping key: " ++
        e.key.describe false ∧
      ∀ other : UnsupportedKey, other.key.HasPlainTags → e.key.HasPlainTags →
        (other.message = e.message ↔ other.key.Alike e.key) := by
  refine ⟨?_, fun e failed => ⟨(readsKeys_toValue d).isFirstUnsupported failed, rfl, rfl,
    fun other plain plain' => UnsupportedKey.message_eq_iff plain plain'⟩⟩
  rw [(readsKeys_toValue d).exists_error_iff]
  constructor
  · rintro ⟨key, member, unsupported⟩
    obtain ⟨entries, inside, isKey⟩ := exists_hasMapping_of_mem_keys member
    obtain ⟨entry, inEntries, rfl⟩ := List.mem_map.1 isKey
    exact ⟨entries, inside, entry, inEntries, unsupported⟩
  · rintro ⟨entries, inside, entry, inEntries, unsupported⟩
    exact ⟨entry.1, inside.mem_keys inEntries, unsupported⟩

/-- A key without a text, below a tag and behind a key that has one. -/
def taggedKeys : Datum :=
  .sequence [.null, .tagged "!t" (.mapping [(.boolean true, .null),
    (.sequence [], .mapping [(.null, .null)])])]

/-- The key that is named is the one in front, not the one in its value. -/
theorem exists_toValue_error_iff_taggedKeys : ∃ e, taggedKeys.toValue = .error e ∧
    IsFirstUnsupported taggedKeys.keys e.key ∧
      e.message = "schema violation at 'value': unsupported mapping key: Sequence []" ∧
      (UnsupportedKey.mk .null).message ≠ e.message := by
  have failed : taggedKeys.toValue = .error ⟨.sequence []⟩ := rfl
  obtain ⟨first, -, message, exact⟩ := (exists_toValue_error_iff taggedKeys).2 _ failed
  have plainNull : Datum.null.HasPlainTags := fun tag has => by cases has
  have plainEmpty : (Datum.sequence []).HasPlainTags := fun tag has => by
    cases has with
    | item member _ => cases member
  refine ⟨_, failed, first, message.trans (by decide), fun same => ?_⟩
  cases (exact ⟨.null⟩ plainNull plainEmpty).1 same

end AzurePipelines.Yaml.Datum
