import AzurePipelines.Proofs.Yaml.UnsupportedKeys
import Mathlib

/-!
# Keys that have the same text

The keys of a value are texts, those of a datum are data, and different data may have the same text:
the number `1` and the text `1`, for one.  Of the entries of a mapping whose keys do, only one is
left, with the value of the last at the place of the first.

`Datum.Becomes` says of a datum and a node that they agree entry by entry at every depth.  The value
of a datum agrees with it exactly if no mapping in the datum has two keys with the same text
(`Datum.becomes_iff`).  Where all keys are texts it is enough that no mapping repeats one.
-/

namespace AzurePipelines.Yaml.Datum

/-! ## Agreement of data and values -/

mutual

/-- The node has what the datum has: null is the empty text, integers that are out of range are
numbers with a point, tags are dropped, and entries stand in their order under the texts of their
keys. -/
inductive Becomes : Datum → Node → Prop
  | null : Becomes .null (.text "")
  | boolean (b : Bool) : Becomes (.boolean b) (.scalar (.boolean b))
  | integer {n : Int} : fits n = true → Becomes (.integer n) (.scalar (.integer n))
  | wide {n : Int} : fits n = false → Becomes (.integer n) (.scalar (.float (.ofInt n)))
  | float (x : Binary64) : Becomes (.float x) (.scalar (.float x))
  | string (text : String) : Becomes (.string text) (.text text)
  | sequence {items : List Datum} {nodes : List Node} : BecomeItems items nodes →
    Becomes (.sequence items) (.sequence nodes)
  | mapping {entries : List (Datum × Datum)} {fields : List (String × Node)} :
    BecomeEntries entries fields → Becomes (.mapping entries) (.mapping fields)
  | tagged {tag : String} {value : Datum} {node : Node} : Becomes value node →
    Becomes (.tagged tag value) node

inductive BecomeItems : List Datum → List Node → Prop
  | nil : BecomeItems [] []
  | cons {item : Datum} {node : Node} {items : List Datum} {nodes : List Node} :
    Becomes item node → BecomeItems items nodes → BecomeItems (item :: items) (node :: nodes)

inductive BecomeEntries : List (Datum × Datum) → List (String × Node) → Prop
  | nil : BecomeEntries [] []
  | cons {key value : Datum} {text : String} {node : Node} {entries : List (Datum × Datum)}
    {fields : List (String × Node)} : key.keyText? = some text → Becomes value node →
    BecomeEntries entries fields →
    BecomeEntries ((key, value) :: entries) ((text, node) :: fields)

end

/-- No mapping in the datum has two keys that are the same datum. -/
def KeysDiffer (d : Datum) : Prop :=
  ∀ entries, d.HasMapping entries → entries.Pairwise fun one other => one.1.same other.1 = false

/-- No mapping in the datum has two keys that have the same text. -/
def TextsDiffer (d : Datum) : Prop :=
  ∀ entries, d.HasMapping entries → (entries.map fun entry => entry.1.keyText?).Nodup

/-- All keys of the mappings in the datum are texts. -/
def KeysAreTexts (d : Datum) : Prop :=
  ∀ entries, d.HasMapping entries → ∀ entry ∈ entries, ∃ text, entry.1 = .string text

/-- Texts are different keys exactly if they are different texts. -/
theorem KeysDiffer.textsDiffer {d : Datum} (differ : d.KeysDiffer) (areTexts : d.KeysAreTexts) :
    d.TextsDiffer := by
  intro entries inside
  rw [List.Nodup, List.pairwise_map]
  apply (differ entries inside).imp_of_mem
  intro one other oneMember otherMember apart same
  obtain ⟨text, oneKey⟩ := areTexts entries inside one oneMember
  obtain ⟨text', otherKey⟩ := areTexts entries inside other otherMember
  rw [oneKey, otherKey] at apart same
  rw [keyText?, keyText?, Option.some.injEq] at same
  rw [same, Datum.same, beq_self_eq_true] at apart
  cases apart

/-! ## Entries that are kept -/

theorem BecomeItems.exists_of_mem {items : List Datum} {nodes : List Node}
    (become : BecomeItems items nodes) {item : Datum} (member : item ∈ items) :
    ∃ node ∈ nodes, Becomes item node := by
  induction items generalizing nodes with
  | nil => cases member
  | cons first items ih =>
    cases become with
    | @cons _ node _ nodes becomes others =>
      rcases List.mem_cons.1 member with rfl | later
      · exact ⟨node, List.mem_cons_self, becomes⟩
      · obtain ⟨other, inNodes, becomes⟩ := ih others later
        exact ⟨other, List.mem_cons_of_mem node inNodes, becomes⟩

theorem BecomeEntries.exists_of_mem {entries : List (Datum × Datum)} {fields : List (String × Node)}
    (become : BecomeEntries entries fields) {entry : Datum × Datum} (member : entry ∈ entries) :
    ∃ field ∈ fields, Becomes entry.2 field.2 := by
  induction entries generalizing fields with
  | nil => cases member
  | cons first entries ih =>
    cases become with
    | @cons _ _ text node _ fields _ becomes others =>
      rcases List.mem_cons.1 member with rfl | later
      · exact ⟨(text, node), List.mem_cons_self, becomes⟩
      · obtain ⟨field, inFields, becomes⟩ := ih others later
        exact ⟨field, List.mem_cons_of_mem _ inFields, becomes⟩

theorem BecomeEntries.map_keyText? {entries : List (Datum × Datum)} {fields : List (String × Node)}
    (become : BecomeEntries entries fields) :
    entries.map (fun entry => entry.1.keyText?) = (fields.map Prod.fst).map some := by
  induction entries generalizing fields with
  | nil =>
    cases become
    rfl
  | cons first entries ih =>
    cases become with
    | cons isText _ others => simp only [List.map_cons, isText, ih others]

/-- The texts of keys differ wherever all entries are kept, since the keys of a node do. -/
theorem Becomes.nodup {d : Datum} {node : Node} (becomes : Becomes d node)
    (distinct : node.KeysDistinct) {entries : List (Datum × Datum)}
    (inside : d.HasMapping entries) : (entries.map fun entry => entry.1.keyText?).Nodup := by
  induction inside generalizing node with
  | self =>
    cases becomes with
    | mapping become =>
      cases distinct with
      | mapping differ _ =>
        rw [become.map_keyText?]
        exact differ.map (Option.some_injective String)
  | item member _ ih =>
    cases becomes with
    | sequence become =>
      cases distinct with
      | sequence all =>
        obtain ⟨node, inNodes, becomes⟩ := become.exists_of_mem member
        exact ih becomes (all node inNodes)
  | value member _ ih =>
    cases becomes with
    | mapping become =>
      cases distinct with
      | mapping _ all =>
        obtain ⟨field, inFields, becomes⟩ := become.exists_of_mem member
        exact ih becomes (all field inFields)
  | tagged _ ih =>
    cases becomes with
    | tagged becomes => exact ih becomes distinct

/-! ## The value of a datum -/

theorem exists_of_map_eq_ok {β γ : Type} {x : Except UnsupportedKey β} {f : β → γ} {c : γ}
    (h : x.map f = .ok c) : ∃ b, x = .ok b ∧ f b = c := by
  cases x with
  | error e => cases h
  | ok b => exact ⟨b, rfl, Except.ok.inj h⟩

theorem exists_of_toValues_cons {item : Datum} {rest : List Datum} {values : List Value}
    (converts : toValues (item :: rest) = .ok values) :
    ∃ v others, item.toValue = .ok v ∧ toValues rest = .ok others ∧ values = v :: others := by
  rw [toValues] at converts
  cases first : item.toValue with
  | error e =>
    rw [first] at converts
    cases converts
  | ok v =>
    rw [first] at converts
    obtain ⟨others, rest, rfl⟩ := exists_of_map_eq_ok converts
    exact ⟨v, others, rfl, rest, rfl⟩

/-- The first entry is inserted under the text of its key, and the others after it. -/
theorem exists_of_addEntries_cons {done m : OrderedMap Value} {key value : Datum}
    {rest : List (Datum × Datum)} (converts : addEntries done ((key, value) :: rest) = .ok m) :
    ∃ text v, key.keyText? = some text ∧ value.toValue = .ok v ∧
      addEntries (done.insert text v) rest = .ok m := by
  rw [addEntries] at converts
  cases isText : key.keyText? with
  | none =>
    rw [isText] at converts
    cases converts
  | some text =>
    rw [isText] at converts
    cases first : value.toValue with
    | error e =>
      rw [first] at converts
      cases converts
    | ok v =>
      rw [first] at converts
      exact ⟨text, v, rfl, rfl, converts⟩

theorem TextsDiffer.item {items : List Datum} (differ : (sequence items).TextsDiffer) {item : Datum}
    (member : item ∈ items) : item.TextsDiffer :=
  fun entries inside => differ entries (.item member inside)

theorem TextsDiffer.value {entries : List (Datum × Datum)} (differ : (mapping entries).TextsDiffer)
    {entry : Datum × Datum} (member : entry ∈ entries) : entry.2.TextsDiffer :=
  fun inner inside => differ inner (.value member inside)

theorem TextsDiffer.tagged {tag : String} {value : Datum}
    (differ : (Datum.tagged tag value).TextsDiffer) : value.TextsDiffer :=
  fun entries inside => differ entries (.tagged inside)

mutual

theorem becomes_of_textsDiffer {d : Datum} {v : Value} (converts : d.toValue = .ok v)
    (differ : d.TextsDiffer) : Becomes d v.node := by
  match d with
  | .null =>
    cases converts
    exact .null
  | .boolean b =>
    cases converts
    exact .boolean b
  | .integer n =>
    cases converts
    cases range : fits n with
    | true => exact .integer range
    | false => exact .wide range
  | .float x =>
    cases converts
    exact .float x
  | .string text =>
    cases converts
    exact .string text
  | .sequence items =>
    rw [toValue] at converts
    obtain ⟨values, all, rfl⟩ := exists_of_map_eq_ok converts
    exact .sequence (becomeItems_of_textsDiffer all fun _ member => differ.item member)
  | .mapping entries =>
    rw [toValue] at converts
    obtain ⟨m, all, rfl⟩ := exists_of_map_eq_ok converts
    obtain ⟨added, same, become⟩ := becomeEntries_of_textsDiffer all
      (differ entries .self) fun _ member => differ.value member
    change Becomes (.mapping entries)
      (.mapping (m.entries.map fun field => (field.1, field.2.node)))
    rw [same]
    exact .mapping become
  | .tagged tag value =>
    rw [toValue] at converts
    exact .tagged (becomes_of_textsDiffer converts differ.tagged)

theorem becomeItems_of_textsDiffer {items : List Datum} {values : List Value}
    (converts : toValues items = .ok values) (differ : ∀ item ∈ items, item.TextsDiffer) :
    BecomeItems items (values.map Value.node) := by
  match items with
  | [] =>
    cases converts
    exact .nil
  | item :: rest =>
    rw [List.forall_mem_cons] at differ
    obtain ⟨v, others, first, all, rfl⟩ := exists_of_toValues_cons converts
    exact .cons (becomes_of_textsDiffer first differ.1)
      (becomeItems_of_textsDiffer all differ.2)

/-- Entries whose keys have other texts than those that are there go behind them. -/
theorem becomeEntries_of_textsDiffer {done m : OrderedMap Value} {entries : List (Datum × Datum)}
    (converts : addEntries done entries = .ok m)
    (fresh : (done.keys.map some ++ entries.map fun entry => entry.1.keyText?).Nodup)
    (differ : ∀ entry ∈ entries, entry.2.TextsDiffer) :
    ∃ added : List (String × Value), m.entries = done.entries ++ added ∧
      BecomeEntries entries (added.map fun field => (field.1, field.2.node)) := by
  match entries with
  | [] =>
    cases converts
    exact ⟨[], (List.append_nil _).symm, .nil⟩
  | (key, value) :: rest =>
    rw [List.forall_mem_cons] at differ
    obtain ⟨text, v, isText, first, converts⟩ := exists_of_addEntries_cons converts
    rw [List.map_cons, isText] at fresh
    -- The key is new, so that its entry goes behind those that are there.
    have absent : text ∉ done.keys := by
      intro present
      have apart := (List.nodup_append.1 fresh).2.2 (some text) (List.mem_map_of_mem present)
      exact apart (some text) List.mem_cons_self rfl
    have keys : (done.insert text v).keys = done.keys ++ [text] := by
      rw [OrderedMap.keys_insert, if_neg absent]
    have stillFresh : ((done.insert text v).keys.map some ++
        rest.map fun entry => entry.1.keyText?).Nodup := by
      rw [keys, List.map_append, List.append_assoc]
      exact fresh
    obtain ⟨added, same, become⟩ :=
      becomeEntries_of_textsDiffer converts stillFresh differ.2
    refine ⟨(text, v) :: added, ?_, ?_⟩
    · rw [same, OrderedMap.entries_insert_of_notMem absent, List.append_assoc,
        List.singleton_append]
    · exact .cons isText (becomes_of_textsDiffer first differ.1) become

end

/-- **The value of a datum has all entries exactly if no two keys of a mapping have one text.**
Different keys that are texts never do. -/
theorem becomes_iff {d : Datum} {v : Value} (converts : d.toValue = .ok v) :
    (Becomes d v.node ↔ d.TextsDiffer) ∧
      (d.KeysDiffer → d.KeysAreTexts → Becomes d v.node) := by
  refine ⟨⟨fun becomes _ inside => becomes.nodup v.distinct inside, ?_⟩, ?_⟩
  · exact becomes_of_textsDiffer converts
  · intro differ areTexts
    exact becomes_of_textsDiffer converts (differ.textsDiffer areTexts)

/-- The number one as a key below a tag, and its text as a key above the tag. -/
def nestedKeys : Datum :=
  .mapping [
    (.boolean true, .tagged "!limits" (.mapping [(.integer 1, .null), (.string "x", .null)])),
    (.string "1", .sequence [.integer 2])]

theorem becomes_iff_nestedKeys :
    ∃ v, nestedKeys.toValue = .ok v ∧ Becomes nestedKeys v.node ∧ v.node =
      .mapping [("true", .mapping [("1", .text ""), ("x", .text "")]),
        ("1", .sequence [.scalar (.integer 2)])] := by
  have differ : nestedKeys.TextsDiffer := by
    intro entries inside
    cases inside with
    | self => decide
    | value member inside =>
      fin_cases member
      · cases inside with
        | tagged inside =>
          cases inside with
          | self => decide
          | value member inside => fin_cases member <;> cases inside
      · cases inside with
        | item member inside =>
          fin_cases member
          cases inside
  exact ⟨_, rfl, (becomes_iff rfl).1.2 differ, rfl⟩

/-- A mapping under the number one, another key, and the text of the number. -/
def mixedKeys : Datum :=
  .mapping [(.integer 1, .string "a"), (.string "x", .string "c"), (.string "1", .string "b")]

/-- All keys of the mapping differ, and yet an entry is lost, and the last one comes first. -/
theorem mixedKeys_replaced :
    mixedKeys.KeysDiffer ∧ ∃ v, mixedKeys.toValue = .ok v ∧
      v.node = .mapping [("1", .text "b"), ("x", .text "c")] ∧ ¬Becomes mixedKeys v.node := by
  refine ⟨?_, _, rfl, rfl, ?_⟩
  · intro entries inside
    cases inside with
    | self => decide
    | value member inside => fin_cases member <;> cases inside
  · intro becomes
    have differ := becomes.nodup (Value.distinct _) .self
    revert differ
    decide

end AzurePipelines.Yaml.Datum
