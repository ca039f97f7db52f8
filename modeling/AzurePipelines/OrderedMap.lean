/-!
# Maps in insertion order

An `OrderedMap` holds its entries in the order in which their keys were first inserted, with
pairwise distinct keys.  Inserting a key that is present replaces its value in place; a new key
goes to the end (`keys_insert`).
-/

namespace AzurePipelines

variable {β : Type}

/-! ## Entries -/

/-- The entries with the value of `key` set: in place if the key occurs, else at the end. -/
def setEntry (key : String) (value : β) : List (String × β) → List (String × β)
  | [] => [(key, value)]
  | entry :: rest =>
    if entry.1 = key then (key, value) :: rest else entry :: setEntry key value rest

/-- The value that `key` has, and the entries with another in its place. -/
def replaceEntry (key : String) (value : β) :
    List (String × β) → Option β × List (String × β)
  | [] => (none, [(key, value)])
  | entry :: rest =>
    if entry.1 = key then (some entry.2, (key, value) :: rest)
    else
      let replaced := replaceEntry key value rest
      (replaced.1, entry :: replaced.2)

theorem replaceEntry_eq (key : String) (value : β) (entries : List (String × β)) :
    replaceEntry key value entries = (entries.lookup key, setEntry key value entries) := by
  induction entries with
  | nil => rfl
  | cons entry rest ih =>
    obtain ⟨k, v⟩ := entry
    by_cases h : k = key
    · simp [replaceEntry, setEntry, h]
    · simp [replaceEntry, setEntry, h, ih, List.lookup_cons, beq_eq_false_iff_ne.2 (Ne.symm h)]

theorem map_fst_setEntry (key : String) (value : β) (entries : List (String × β)) :
    (setEntry key value entries).map Prod.fst =
      if key ∈ entries.map Prod.fst then entries.map Prod.fst
      else entries.map Prod.fst ++ [key] := by
  induction entries with
  | nil => simp [setEntry]
  | cons entry rest ih =>
    by_cases h : entry.1 = key
    · simp [setEntry, h]
    · by_cases m : key ∈ rest.map Prod.fst
      · simp [setEntry, h, ih, m]
      · simp [setEntry, h, ih, m, Ne.symm h]

theorem setEntry_of_notMem {key : String} {entries : List (String × β)}
    (absent : key ∉ entries.map Prod.fst) (value : β) :
    setEntry key value entries = entries ++ [(key, value)] := by
  induction entries with
  | nil => rfl
  | cons entry rest ih =>
    rw [List.map_cons, List.mem_cons, not_or] at absent
    rw [setEntry, if_neg (Ne.symm absent.1), ih absent.2, List.cons_append]

/-- Where keys are distinct, each has the value that stands with it. -/
theorem lookup_eq_some_of_mem {α : Type} [BEq α] [LawfulBEq α] {entries : List (α × β)}
    (distinct : (entries.map Prod.fst).Nodup) {entry : α × β} (member : entry ∈ entries) :
    entries.lookup entry.1 = some entry.2 := by
  obtain ⟨before, after, split⟩ := List.append_of_mem member
  rw [split, List.map_append, List.map_cons, List.nodup_append] at distinct
  refine List.lookup_eq_some_iff.2 ⟨before, after, split, fun other earlier => ?_⟩
  have differ := distinct.2.2 other.1 (List.mem_map_of_mem earlier) entry.1 List.mem_cons_self
  simpa using differ.symm

/-! ## The map -/

/-- A map from texts whose entries keep the order of their first insertion. -/
structure OrderedMap (β : Type) where
  entries : List (String × β)
  distinct : (entries.map Prod.fst).Nodup

namespace OrderedMap

def empty : OrderedMap β := ⟨[], .nil⟩

instance : Inhabited (OrderedMap β) := ⟨empty⟩

/-- The keys in order. -/
def keys (m : OrderedMap β) : List String := m.entries.map Prod.fst

def size (m : OrderedMap β) : Nat := m.entries.length

def isEmpty (m : OrderedMap β) : Bool := m.entries.isEmpty

/-- The value of a key. -/
def get? (m : OrderedMap β) (key : String) : Option β := m.entries.lookup key

/-- Sets the value of a key, in place if the key is present. -/
def insert (m : OrderedMap β) (key : String) (value : β) : OrderedMap β where
  entries := setEntry key value m.entries
  distinct := by
    rw [map_fst_setEntry]
    split
    · exact m.distinct
    · rename_i h
      exact List.nodup_append.2 ⟨m.distinct, by simp, by
        intro a ha b hb
        obtain rfl := List.mem_singleton.1 hb
        rintro rfl
        exact h ha⟩

/-- Sets the value of a key, and tells which value it takes the place of. -/
def replace (m : OrderedMap β) (key : String) (value : β) : Option β × OrderedMap β :=
  let replaced := replaceEntry key value m.entries
  (replaced.1, ⟨replaced.2, by
    rw [show replaced = _ from replaceEntry_eq key value m.entries]
    exact (m.insert key value).distinct⟩)

theorem replace_eq (m : OrderedMap β) (key : String) (value : β) :
    m.replace key value = (m.get? key, m.insert key value) := by
  unfold replace get? insert
  simp only [replaceEntry_eq]

/-- The map after the insertion of all pairs, from the first to the last. -/
def ofList (pairs : List (String × β)) : OrderedMap β :=
  pairs.foldl (fun m pair => m.insert pair.1 pair.2) empty

theorem keys_insert (m : OrderedMap β) (key : String) (value : β) :
    (m.insert key value).keys = if key ∈ m.keys then m.keys else m.keys ++ [key] :=
  map_fst_setEntry key value m.entries

/-- A new key goes behind all entries. -/
theorem entries_insert_of_notMem {m : OrderedMap β} {key : String} (absent : key ∉ m.keys)
    (value : β) : (m.insert key value).entries = m.entries ++ [(key, value)] :=
  setEntry_of_notMem absent value

theorem get?_insert_self (m : OrderedMap β) (key : String) (value : β) :
    (m.insert key value).get? key = some value := by
  obtain ⟨entries, _⟩ := m
  simp only [get?, insert]
  induction entries with
  | nil => simp [setEntry]
  | cons entry rest ih =>
    by_cases h : entry.1 = key
    · simp [setEntry, h]
    · obtain ⟨k, v⟩ := entry
      simp_all [setEntry, List.lookup_cons, beq_eq_false_iff_ne.2 (Ne.symm h)]

theorem get?_insert_of_ne (m : OrderedMap β) {key other : String} (value : β) (h : other ≠ key) :
    (m.insert key value).get? other = m.get? other := by
  obtain ⟨entries, _⟩ := m
  simp only [get?, insert]
  induction entries with
  | nil => simp [setEntry, List.lookup_cons, beq_eq_false_iff_ne.2 h]
  | cons entry rest ih =>
    obtain ⟨k, v⟩ := entry
    by_cases hk : k = key
    · simp [setEntry, hk, List.lookup_cons, beq_eq_false_iff_ne.2 h]
    · by_cases ho : other = k
      · simp [setEntry, hk, ho]
      · simp_all [setEntry, List.lookup_cons, beq_eq_false_iff_ne.2 ho]

end OrderedMap

end AzurePipelines
