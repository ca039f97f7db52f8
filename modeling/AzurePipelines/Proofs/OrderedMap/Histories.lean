import AzurePipelines.OrderedMap
import AzurePipelines.Value
import Mathlib

/-!
# Histories of ordered maps

A history of a map is the list of all insertions that were made into it, from the first to the last,
however they were called.  The map shows of its history exactly two things
(`OrderedMap.Shows`): the keys in the order in which they were first inserted, and for each the
value that was last inserted (`OrderedMap.run_shows`).

Nothing more is asked of a container that holds the entries than to put a value into the place of
the one that its key has, and to put a new key behind all others: any such `EntryStore` answers as
the map does.
-/

namespace AzurePipelines

variable {β : Type}

/-! ## Histories -/

/-- The value that was last inserted for a key. -/
def lastInserted? (history : List (String × β)) (key : String) : Option β :=
  history.reverse.lookup key

/-- A call that puts a pair into a map, and tells which value it replaced or gives back the map. -/
inductive MapCall (β : Type) where
  | inserting (key : String) (value : β)
  | including (key : String) (value : β)

def MapCall.pair : MapCall β → String × β
  | .inserting key value => (key, value)
  | .including key value => (key, value)

namespace OrderedMap

/-- The map after a call. -/
def after (m : OrderedMap β) : MapCall β → OrderedMap β
  | .inserting key value => (m.replace key value).2
  | .including key value => m.insert key value

/-- The map after calls, one after the other. -/
def run (m : OrderedMap β) (calls : List (MapCall β)) : OrderedMap β := calls.foldl after m

/-- The map shows of its history the order of first insertions and the values of last ones. -/
structure Shows (m : OrderedMap β) (history : List (String × β)) : Prop where
  distinct : m.keys.Nodup
  mem_keys : ∀ key, key ∈ m.keys ↔ key ∈ history.map Prod.fst
  ordered : m.keys.Pairwise fun first second =>
    (history.map Prod.fst).idxOf first < (history.map Prod.fst).idxOf second
  get? : ∀ key, m.get? key = lastInserted? history key
  size : m.size = (history.map Prod.fst).toFinset.card
  entries : m.entries.map (fun entry => (entry.1, some entry.2)) =
    m.keys.map fun key => (key, m.get? key)

theorem after_eq (m : OrderedMap β) (call : MapCall β) :
    m.after call = m.insert call.pair.1 call.pair.2 := by
  cases call with
  | inserting key value => rw [after, replace_eq]; rfl
  | including key value => rfl

theorem ofList_concat (history : List (String × β)) (pair : String × β) :
    ofList (history ++ [pair]) = (ofList history).insert pair.1 pair.2 := by
  rw [ofList, ofList, List.foldl_concat]

/-- Calls insert their pairs behind those that the map was made from. -/
theorem run_ofList (pairs : List (String × β)) (calls : List (MapCall β)) :
    (ofList pairs).run calls = ofList (pairs ++ calls.map MapCall.pair) := by
  have each : after = fun (m : OrderedMap β) (call : MapCall β) =>
      m.insert call.pair.1 call.pair.2 := by
    funext m call
    exact after_eq m call
  rw [run, each, ofList, ofList, List.foldl_append, List.foldl_map]

theorem mem_keys_ofList (history : List (String × β)) (key : String) :
    key ∈ (ofList history).keys ↔ key ∈ history.map Prod.fst := by
  induction history using List.reverseRecOn with
  | nil => rfl
  | append_singleton history pair ih =>
    rw [ofList_concat, keys_insert, List.map_append, List.mem_append, ← ih, List.map_singleton,
      List.mem_singleton]
    split
    · rename_i old
      exact ⟨.inl, fun met => met.elim id fun same => same ▸ old⟩
    · rw [List.mem_append, List.mem_singleton]

/-- A key that was inserted stands where it was first inserted, also with more behind it. -/
theorem ordered_ofList (history : List (String × β)) :
    (ofList history).keys.Pairwise fun first second =>
      (history.map Prod.fst).idxOf first < (history.map Prod.fst).idxOf second := by
  induction history using List.reverseRecOn with
  | nil => exact .nil
  | append_singleton history pair ih =>
    have inserted {key : String} (met : key ∈ (ofList history).keys) :=
      (mem_keys_ofList history key).1 met
    have before : (ofList history).keys.Pairwise fun first second =>
        ((history ++ [pair]).map Prod.fst).idxOf first <
          ((history ++ [pair]).map Prod.fst).idxOf second := by
      refine ih.imp_of_mem fun met met' earlier => ?_
      rwa [List.map_append, List.idxOf_append_of_mem (inserted met),
        List.idxOf_append_of_mem (inserted met')]
    rw [ofList_concat, keys_insert]
    split
    · exact before
    · rename_i new
      rw [mem_keys_ofList] at new
      refine List.pairwise_append.2 ⟨before, List.pairwise_singleton _ _, fun key met last is => ?_⟩
      obtain rfl := List.mem_singleton.1 is
      rw [List.map_append, List.idxOf_append_of_mem (inserted met),
        List.idxOf_append_of_notMem new]
      exact Nat.lt_add_right _ (List.idxOf_lt_length_of_mem (inserted met))

theorem get?_ofList (history : List (String × β)) (key : String) :
    (ofList history).get? key = lastInserted? history key := by
  induction history using List.reverseRecOn with
  | nil => rfl
  | append_singleton history pair ih =>
    rw [ofList_concat, lastInserted?, List.reverse_concat]
    by_cases same : key = pair.1
    · rw [same, get?_insert_self, List.lookup_cons_self]
    · rw [get?_insert_of_ne _ _ same, ih, lastInserted?]
      obtain ⟨k, v⟩ := pair
      rw [List.lookup_cons, beq_eq_false_iff_ne.2 same]

theorem shows_ofList (history : List (String × β)) : (ofList history).Shows history where
  distinct := (ofList history).distinct
  mem_keys := mem_keys_ofList history
  ordered := ordered_ofList history
  get? := get?_ofList history
  size := by
    have same : (ofList history).keys.toFinset = (history.map Prod.fst).toFinset := by
      ext key
      rw [List.mem_toFinset, List.mem_toFinset, mem_keys_ofList]
    rw [← same, List.toFinset_card_of_nodup (l := (ofList history).keys) (ofList history).distinct,
      keys, List.length_map, OrderedMap.size]
  entries := by
    rw [keys, List.map_map]
    refine List.map_congr_left fun entry member => ?_
    rw [Function.comp_apply, get?, lookup_eq_some_of_mem (ofList history).distinct member]

end OrderedMap

/-! ## Containers of entries -/

/-- A container of entries. -/
structure EntryStore (β : Type) where
  Carrier : Type
  empty : Carrier
  /-- Also tells which value was replaced. -/
  insert : Carrier → String → β → Option β × Carrier
  get? : Carrier → String → Option β
  size : Carrier → Nat
  entries : Carrier → List (String × β)

namespace EntryStore

/-- The container puts a value into the place of the one that its key has, and a new key behind all
others; what it says of keys and of its size is said of its entries. -/
structure KeepsOrder (store : EntryStore β) : Prop where
  entries_empty : store.entries store.empty = []
  insert_old : ∀ {c : store.Carrier} {key : String} {old : β} {above below : List (String × β)}
    (value : β), store.entries c = above ++ (key, old) :: below →
      (store.insert c key value).1 = some old ∧
        store.entries (store.insert c key value).2 = above ++ (key, value) :: below
  insert_new : ∀ {c : store.Carrier} {key : String} (value : β),
    key ∉ (store.entries c).map Prod.fst →
      (store.insert c key value).1 = none ∧
        store.entries (store.insert c key value).2 = store.entries c ++ [(key, value)]
  get?_eq : ∀ (c : store.Carrier) (key : String), store.get? c key = (store.entries c).lookup key
  size_eq : ∀ c : store.Carrier, store.size c = (store.entries c).length

/-- The container after the insertion of all pairs. -/
def ofList (store : EntryStore β) (history : List (String × β)) : store.Carrier :=
  history.foldl (fun c pair => (store.insert c pair.1 pair.2).2) store.empty

variable {store other : EntryStore β}

/-- Containers with the same entries have the same entries after an insertion, and replace the same
value. -/
theorem KeepsOrder.insert_congr (keeps : store.KeepsOrder) (keeps' : other.KeepsOrder)
    {c : store.Carrier} {c' : other.Carrier} (same : store.entries c = other.entries c')
    (key : String) (value : β) :
    (store.insert c key value).1 = (other.insert c' key value).1 ∧
      store.entries (store.insert c key value).2 = other.entries (other.insert c' key value).2 := by
  by_cases present : key ∈ (store.entries c).map Prod.fst
  · obtain ⟨⟨key, old⟩, member, rfl⟩ := List.mem_map.1 present
    obtain ⟨above, below, split⟩ := List.append_of_mem member
    obtain ⟨replaced, left⟩ := keeps.insert_old value split
    obtain ⟨replaced', left'⟩ := keeps'.insert_old value (same ▸ split)
    exact ⟨replaced.trans replaced'.symm, left.trans left'.symm⟩
  · obtain ⟨replaced, left⟩ := keeps.insert_new value present
    obtain ⟨replaced', left'⟩ := keeps'.insert_new value (same ▸ present)
    exact ⟨replaced.trans replaced'.symm, by rw [left, left', same]⟩

theorem KeepsOrder.entries_ofList (keeps : store.KeepsOrder) (keeps' : other.KeepsOrder)
    (history : List (String × β)) :
    store.entries (store.ofList history) = other.entries (other.ofList history) := by
  induction history using List.reverseRecOn with
  | nil => exact keeps.entries_empty.trans keeps'.entries_empty.symm
  | append_singleton history pair ih =>
    rw [ofList, ofList, List.foldl_concat, List.foldl_concat]
    exact (keeps.insert_congr keeps' ih pair.1 pair.2).2

end EntryStore

namespace OrderedMap

theorem setEntry_append_cons {key : String} {above : List (String × β)}
    (absent : key ∉ above.map Prod.fst) (old value : β) (below : List (String × β)) :
    setEntry key value (above ++ (key, old) :: below) = above ++ (key, value) :: below := by
  induction above with
  | nil => rw [List.nil_append, setEntry, if_pos rfl, List.nil_append]
  | cons entry above ih =>
    rw [List.map_cons, List.mem_cons, not_or] at absent
    rw [List.cons_append, setEntry, if_neg (Ne.symm absent.1), ih absent.2, List.cons_append]

variable {m : OrderedMap β} {key : String} {old : β} {above below : List (String × β)}

theorem replace_old (value : β) (split : m.entries = above ++ (key, old) :: below) :
    (m.replace key value).1 = some old ∧
      (m.replace key value).2.entries = above ++ (key, value) :: below := by
  have member : (key, old) ∈ m.entries := split ▸ List.mem_append_right above List.mem_cons_self
  have distinct := m.distinct
  rw [split, List.map_append, List.map_cons, List.nodup_append] at distinct
  have absent : key ∉ above.map Prod.fst := fun met =>
    distinct.2.2 key met key List.mem_cons_self rfl
  rw [replace_eq]
  refine ⟨lookup_eq_some_of_mem m.distinct member, ?_⟩
  change setEntry key value m.entries = above ++ (key, value) :: below
  rw [split, setEntry_append_cons absent]

theorem replace_new (value : β) (absent : key ∉ m.keys) :
    (m.replace key value).1 = none ∧
      (m.replace key value).2.entries = m.entries ++ [(key, value)] := by
  rw [replace_eq]
  refine ⟨List.lookup_eq_none_iff.2 fun entry member => ?_, entries_insert_of_notMem absent value⟩
  have differ : key ≠ entry.1 := fun same => absent (same ▸ List.mem_map_of_mem member)
  exact bne_iff_ne.2 differ

/-- The ordered map as a container of entries. -/
def store : EntryStore β where
  Carrier := OrderedMap β
  empty := empty
  insert := replace
  get? := get?
  size := size
  entries := entries

theorem keepsOrder_store : (store : EntryStore β).KeepsOrder where
  entries_empty := rfl
  insert_old := replace_old
  insert_new := replace_new
  get?_eq _ _ := rfl
  size_eq _ := rfl

theorem ofList_store (history : List (String × β)) :
    (store : EntryStore β).ofList history = ofList history := by
  have each : (fun (m : OrderedMap β) (pair : String × β) => (m.replace pair.1 pair.2).2) =
      fun m pair => m.insert pair.1 pair.2 := by
    funext m pair
    rw [replace_eq]
  exact congrArg (fun step => history.foldl step empty) each

/-! ## Maps of values -/

/-- The container answers as the map does. -/
def Agrees (m : OrderedMap β) (store : EntryStore β) (c : store.Carrier) : Prop :=
  store.entries c = m.entries ∧ store.size c = m.size ∧ (∀ key, store.get? c key = m.get? key) ∧
    ∀ key value, (store.insert c key value).1 = (m.replace key value).1

theorem agrees_ofList {other : EntryStore β} (keeps : other.KeepsOrder)
    (history : List (String × β)) :
    (ofList history).Agrees other (other.ofList history) := by
  have same : other.entries (other.ofList history) = (ofList history).entries :=
    (keeps.entries_ofList keepsOrder_store history).trans
      (congrArg OrderedMap.entries (ofList_store history))
  refine ⟨same, ?_, fun key => ?_, fun key value => ?_⟩
  · rw [keeps.size_eq, same, size]
  · rw [keeps.get?_eq, same, get?]
  · exact (keeps.insert_congr keepsOrder_store same key value).1

/-- The node of a map has its keys in their order, each with the node of its value. -/
def IsNodeOf (m : OrderedMap Value) (node : Yaml.Node) : Prop :=
  ∃ entries, node = .mapping entries ∧ entries.map Prod.fst = m.keys ∧
    ∀ key, entries.lookup key = (m.get? key).map Value.node

theorem lookup_map_snd {γ : Type} (f : β → γ) (entries : List (String × β)) (key : String) :
    (entries.map fun entry => (entry.1, f entry.2)).lookup key = (entries.lookup key).map f := by
  induction entries with
  | nil => rfl
  | cons entry entries ih =>
    rw [List.map_cons, List.lookup_cons, ih]
    obtain ⟨k, v⟩ := entry
    rw [List.lookup_cons]
    cases key == k <;> rfl

theorem isNodeOf_node (m : OrderedMap Value) : m.IsNodeOf m.node := by
  refine ⟨_, rfl, ?_, lookup_map_snd Value.node m.entries⟩
  rw [List.map_map]
  rfl

/-- **What a map shows of its history.**  Whatever it is made from, and however often keys are
repeated after that: its keys differ and stand in the order of their first insertion, each has the
value of its last one, which is also what the next insertion says to have replaced, and its node has
the same entries in the same order.  Any container that keeps entries in order answers alike. -/
theorem run_shows (pairs : List (String × Value)) (calls : List (MapCall Value)) :
    let history := pairs ++ calls.map MapCall.pair
    let m := (ofList pairs).run calls
    m.Shows history ∧ (∀ key value, (m.replace key value).1 = lastInserted? history key) ∧
      m.IsNodeOf m.node ∧
      ∀ other : EntryStore Value, other.KeepsOrder → m.Agrees other (other.ofList history) := by
  intro history m
  have whole : m = ofList history := run_ofList pairs calls
  rw [whole]
  refine ⟨shows_ofList history, fun key value => ?_, isNodeOf_node _, fun other keeps => ?_⟩
  · rw [replace_eq]
    exact get?_ofList history key
  · exact agrees_ofList keeps history

/-- A key that is set again keeps its place, and the map that answers so is itself a container. -/
theorem run_shows_setAgain :
    let pairs := [("version", Value.text "6.x"), ("runTests", Value.text "true")]
    let calls := [MapCall.inserting "version" (Value.text "7.x"), .including "path" (.text "src")]
    let m := (ofList pairs).run calls
    (store : EntryStore Value).KeepsOrder ∧ m.keys = ["version", "runTests", "path"] ∧
      m.get? "version" = some (.text "7.x") ∧
      m.Agrees store (store.ofList (pairs ++ calls.map MapCall.pair)) := by
  intro pairs calls m
  obtain ⟨shown, _, _, agrees⟩ := run_shows pairs calls
  exact ⟨keepsOrder_store, by decide, shown.get? "version", agrees store keepsOrder_store⟩

end OrderedMap

end AzurePipelines
