import AzurePipelines.Proofs.Schema.Positions
import AzurePipelines.Schema.Accessors
import Mathlib

/-!
# Consistent schemas

A schema is consistent from a root record on (`Schema.Consistent`) if its records have names of
their own, and every record that the root contains, at any depth, has bases that end and parameters
that are told apart by names that are paths, and does not contain itself.  Exactly then the schema
has accessors from that root on (`Schema.exists_accessors_iff`).

While members are followed, the records above a group are those that contain its record.  So every
record that is reached has a group, which is made of nothing but a sound record, and a record that
contains itself would be met below itself (`Schema.not_contains_self_of_group_eq_ok`); in turn, no
record is met twice where none contains itself (`Schema.exists_group`).
-/

namespace AzurePipelines

/-! ## References to members -/

/-- A path goes on with another behind a dot. -/
theorem isReferencePath_append_cons (above below : List Char) :
    isReferencePath (above ++ '.' :: below) = (isReferencePath above && isReferencePath below) := by
  rw [isReferencePath, Text.pieces_append_cons, List.all_append, isReferencePath, isReferencePath]

theorem ParameterReference.exists_parse_iff (path : String) :
    (∃ r, parse path = .ok r) ↔ isReferencePath path.toList = true := by
  rw [← pathFault?_eq_none_iff, parse]
  split
  · simp [*]
  · simp [*]

/-- A reference that is refused is refused for its own text. -/
theorem ParameterReference.text_of_parse_eq_error {path : String} {e : ReferenceError}
    (h : parse path = .error e) : e.text = path := by
  unfold parse at h
  split at h
  · cases h
  · cases h
    rfl

namespace Schema

/-- A member has a reference exactly if its name is a path, whatever parameter it is below. -/
theorem exists_memberReference_iff (parent : Option ParameterReference) (name : String) :
    (∃ r, memberReference parent name = .ok r) ↔ isReferencePath name.toList = true := by
  cases parent with
  | none => exact ParameterReference.exists_parse_iff name
  | some parent =>
    have joined : (parent.path ++ "." ++ name).toList =
        parent.path.toList ++ '.' :: name.toList := by
      simp
    rw [memberReference, ParameterReference.member, ParameterReference.exists_parse_iff, joined,
      isReferencePath_append_cons, parent.isPath, Bool.true_and]

/-- The text of a refused reference ends in the name of the member. -/
theorem suffix_of_memberReference_eq_error {parent : Option ParameterReference} {name : String}
    {e : ReferenceError} (h : memberReference parent name = .error e) :
    name.toList <:+ e.text.toList := by
  cases parent with
  | none =>
    rw [ParameterReference.text_of_parse_eq_error h]
  | some parent =>
    rw [ParameterReference.text_of_parse_eq_error h]
    exact ⟨(parent.path ++ ".").toList, by simp⟩

/-! ## Bases -/

variable {s : Schema}

/-- The record of a name, and its bases up to the last. -/
inductive BaseChain (s : Schema) : String → List Record → Prop
  | last {name : String} {r : Record} : s.record? name = some r → r.base = none →
    BaseChain s name [r]
  | next {name base : String} {r : Record} {bases : List Record} : s.record? name = some r →
    r.base = some base → BaseChain s base bases → BaseChain s name (r :: bases)

theorem ancestry_last {chain : List String} {name : String} {r : Record} (new : name ∉ chain)
    (declared : s.record? name = some r) (ends : r.base = none) :
    s.ancestry chain name = .ok [r] := by
  unfold ancestry
  rw [dif_neg new]
  split <;> simp_all

theorem ancestry_next {chain : List String} {name base : String} {r : Record} (new : name ∉ chain)
    (declared : s.record? name = some r) (goesOn : r.base = some base) :
    s.ancestry chain name = (s.ancestry (chain ++ [name]) base).map (r :: ·) := by
  rw [ancestry, dif_neg new]
  split <;> simp_all

/-- The chain of a record is all that is found, where none of its names was met before. -/
theorem BaseChain.ancestry_eq_ok {name : String} {records : List Record}
    (h : s.BaseChain name records) {chain : List String}
    (new : ∀ r ∈ records, r.name ∉ chain) (distinct : (records.map (·.name)).Nodup) :
    s.ancestry chain name = .ok records := by
  induction h generalizing chain with
  | last declared ends =>
    have isName := (mem_of_record?_eq_some declared).2
    exact ancestry_last (isName ▸ new _ List.mem_cons_self) declared ends
  | @next name base r bases declared goesOn _ ih =>
    have isName := (mem_of_record?_eq_some declared).2
    rw [List.forall_mem_cons] at new
    rw [List.map_cons, List.nodup_cons] at distinct
    have above : ∀ other ∈ bases, other.name ∉ chain ++ [name] := by
      intro other member met
      rcases List.mem_append.1 met with met | met
      · exact new.2 other member met
      · apply distinct.1
        rw [isName, ← List.mem_singleton.1 met]
        exact List.mem_map_of_mem member
    rw [ancestry_next (isName ▸ new.1) declared goesOn, ih above distinct.2]
    rfl

theorem baseChain_of_ancestry_eq_ok {chain : List String} {name : String} {records : List Record}
    (h : s.ancestry chain name = .ok records) :
    s.BaseChain name records ∧ (∀ r ∈ records, r.name ∉ chain) ∧
      (records.map (·.name)).Nodup := by
  fun_induction ancestry s chain name generalizing records with
  | case1 chain name visited => cases h
  | case2 chain name unvisited undeclared => cases h
  | case3 chain name unvisited r declared ends =>
    obtain ⟨⟩ := h
    have isName := (mem_of_record?_eq_some declared).2
    refine ⟨.last declared ends, List.forall_mem_singleton.2 (isName ▸ unvisited), ?_⟩
    exact List.nodup_singleton _
  | case4 chain name unvisited r declared base goesOn ih =>
    cases above : s.ancestry (chain ++ [name]) base with
    | error fault =>
      rw [above] at h
      cases h
    | ok bases =>
      rw [above] at h
      obtain ⟨⟩ := h
      obtain ⟨chained, new, distinct⟩ := ih above
      have isName := (mem_of_record?_eq_some declared).2
      have apart (other : Record) (member : other ∈ bases) :
          other.name ∉ chain ∧ other.name ≠ name := by
        simpa using new other member
      refine ⟨.next declared goesOn chained, List.forall_mem_cons.2 ⟨isName ▸ unvisited, ?_⟩, ?_⟩
      · exact fun other member => (apart other member).1
      · refine List.nodup_cons.2 ⟨fun met => ?_, distinct⟩
        obtain ⟨other, member, same⟩ := List.mem_map.1 met
        exact (apart other member).2 (same.trans isName)

/-! ## Parameters of records -/

/-- The members that are parameters: all but those that a compiler makes. -/
def parametersAmong (members : List Member) : List Member := members.filter (!·.synthesized)

theorem parametersAmong_cons_of_synthesized {m : Member} {rest : List Member}
    (synthesized : m.synthesized = true) :
    parametersAmong (m :: rest) = parametersAmong rest := by
  simp [parametersAmong, synthesized]

theorem parametersAmong_cons {m : Member} {rest : List Member} (given : m.synthesized = false) :
    parametersAmong (m :: rest) = m :: parametersAmong rest := by
  simp [parametersAmong, given]

/-- The parameters of a record and its bases. -/
def parametersOf (records : List Record) : List Member :=
  parametersAmong (records.flatMap (·.members))

theorem mem_parametersOf_cons {m : Member} {r : Record} {bases : List Record} :
    m ∈ parametersOf (r :: bases) ↔
      (m ∈ r.members ∧ m.synthesized = false) ∨ m ∈ parametersOf bases := by
  simp [parametersOf, parametersAmong]

/-- The record of a name has the record of the other as its base. -/
def Inherits (s : Schema) (name base : String) : Prop :=
  ∃ r, s.record? name = some r ∧ r.base = some base

/-- A record has a parameter of its own, or inherits it. -/
def HasParameter (s : Schema) (name : String) (m : Member) : Prop :=
  ∃ ancestor r, Relation.ReflTransGen s.Inherits name ancestor ∧ s.record? ancestor = some r ∧
    m ∈ r.members ∧ m.synthesized = false

/-- A record has a parameter whose type is the other record. -/
def Contains (s : Schema) (outer inner : String) : Prop :=
  ∃ m, s.HasParameter outer m ∧ m.kind = .record inner

/-- From a record to itself, and to all that it contains at any depth. -/
abbrev Reaches (s : Schema) : String → String → Prop := Relation.ReflTransGen s.Contains

theorem hasParameter_iff_of_declared {name : String} {r : Record} {m : Member}
    (declared : s.record? name = some r) :
    s.HasParameter name m ↔ (m ∈ r.members ∧ m.synthesized = false) ∨
      ∃ base, r.base = some base ∧ s.HasParameter base m := by
  constructor
  · intro ⟨ancestor, owner, above, owned, member⟩
    rcases Relation.ReflTransGen.cases_head above with rfl | ⟨base, ⟨r', again, goesOn⟩, above⟩
    · rw [declared] at owned
      obtain ⟨⟩ := owned
      exact .inl member
    · rw [declared] at again
      obtain ⟨⟩ := again
      exact .inr ⟨base, goesOn, ancestor, owner, above, owned, member⟩
  · intro has
    rcases has with member | ⟨base, goesOn, ancestor, owner, above, owned, member⟩
    · exact ⟨name, r, .refl, declared, member⟩
    · exact ⟨ancestor, owner, .head ⟨r, declared, goesOn⟩ above, owned, member⟩

/-- Where the bases of a record end, its parameters are those of the chain. -/
theorem BaseChain.hasParameter_iff {name : String} {records : List Record} {m : Member}
    (h : s.BaseChain name records) : s.HasParameter name m ↔ m ∈ parametersOf records := by
  induction h with
  | last declared ends =>
    rw [hasParameter_iff_of_declared declared, mem_parametersOf_cons, ends]
    simp [parametersOf, parametersAmong]
  | next declared goesOn _ ih =>
    rw [hasParameter_iff_of_declared declared, mem_parametersOf_cons, goesOn, ← ih]
    simp

/-! ## Consistency -/

/-- A record and its bases: the chain ends, no record stands twice in it, and its parameters have
names of their own, which are paths. -/
structure SoundChain (s : Schema) (name : String) (records : List Record) : Prop where
  bases : s.BaseChain name records
  distinctBases : (records.map (·.name)).Nodup
  distinctNames : ((parametersOf records).map Member.serializedName).Nodup
  paths : ∀ m ∈ parametersOf records, isReferencePath m.serializedName.toList = true

/-- The schema is consistent from a root record on. -/
structure Consistent (s : Schema) (root : String) : Prop where
  distinctRecords : (s.records.map (·.name)).Nodup
  sound : ∀ name, s.Reaches root name → ∃ records, s.SoundChain name records
  acyclic : ∀ name, s.Reaches root name → ¬Relation.TransGen s.Contains name name

/-- A parameter of a record that is reached has a name that is no path, and it is what the error is
about. -/
def RefusesName (s : Schema) (root : String) (refused : ReferenceError) : Prop :=
  ∃ name m, s.Reaches root name ∧ s.HasParameter name m ∧
    isReferencePath m.serializedName.toList = false ∧
      m.serializedName.toList <:+ refused.text.toList

/-! ## Groups of members -/

/-- The accessors below a parameter, if its type is a record. -/
def nestedGroup (s : Schema) (reference : ParameterReference) (path : List String) :
    MemberKind → Except SchemaError (Option AccessorGroup)
  | .record name => (s.group (some reference) path name).map some
  | _ => .ok none

variable {parent : Option ParameterReference} {path seen : List String} {record : String}
  {m : Member} {rest members : List Member}

theorem groupMembers_synthesized (synthesized : m.synthesized = true) :
    s.groupMembers parent path record seen (m :: rest) =
      s.groupMembers parent path record seen rest := by
  rw [groupMembers, if_pos synthesized]

theorem groupMembers_repeated (given : m.synthesized = false) (old : m.serializedName ∈ seen) :
    s.groupMembers parent path record seen (m :: rest) =
      .error (.fault (.repeatedMember record m.serializedName)) := by
  rw [groupMembers, given, if_neg Bool.false_ne_true, if_pos old]

theorem groupMembers_refused (given : m.synthesized = false) (new : m.serializedName ∉ seen)
    {e : ReferenceError} (refused : memberReference parent m.serializedName = .error e) :
    s.groupMembers parent path record seen (m :: rest) = .error (.reference e) := by
  rw [groupMembers, given, if_neg Bool.false_ne_true, if_neg new, refused]

theorem groupMembers_given (given : m.synthesized = false) (new : m.serializedName ∉ seen)
    {reference : ParameterReference}
    (made : memberReference parent m.serializedName = .ok reference) :
    s.groupMembers parent path record seen (m :: rest) = do
      let nested ← s.nestedGroup reference path m.kind
      let others ← s.groupMembers parent path record (m.serializedName :: seen) rest
      return ⟨m.name, m.kind, reference, nested⟩ :: others := by
  rw [groupMembers, given, if_neg Bool.false_ne_true, if_neg new, made]
  cases m.kind <;> rfl

theorem exists_nestedGroup_iff {reference : ParameterReference} {kind : MemberKind} :
    (∃ nested, s.nestedGroup reference path kind = .ok nested) ↔
      ∀ inner, kind = .record inner → ∃ g, s.group (some reference) path inner = .ok g := by
  cases kind with
  | record name =>
    rw [nestedGroup]
    cases below : s.group (some reference) path name <;> simp [below, Except.map]
  | _ => simp [nestedGroup]

theorem of_nestedGroup_eq_error {reference : ParameterReference} {kind : MemberKind}
    {e : SchemaError} (h : s.nestedGroup reference path kind = .error e) :
    ∃ inner, kind = .record inner ∧ s.group (some reference) path inner = .error e := by
  cases kind with
  | record name =>
    refine ⟨name, rfl, ?_⟩
    rw [nestedGroup] at h
    cases below : s.group (some reference) path name with
    | error inside =>
      rw [below] at h
      exact congrArg Except.error (Except.error.inj h)
    | ok g =>
      rw [below] at h
      cases h
  | _ => cases h

/-- All parameters among the members have names of their own, which are paths, and groups where
their types are records. -/
theorem of_groupMembers_eq_ok {accessors : List Accessor}
    (h : s.groupMembers parent path record seen members = .ok accessors) :
    ((parametersAmong members).map Member.serializedName).Nodup ∧
      ∀ m ∈ parametersAmong members, m.serializedName ∉ seen ∧
        isReferencePath m.serializedName.toList = true ∧
          ∀ inner, m.kind = .record inner →
            ∃ below g, s.group (some below) path inner = .ok g := by
  induction members generalizing seen accessors with
  | nil => simp [parametersAmong]
  | cons m rest ih =>
    by_cases synthesized : m.synthesized = true
    · rw [groupMembers_synthesized synthesized] at h
      rw [parametersAmong_cons_of_synthesized synthesized]
      exact ih h
    rw [Bool.not_eq_true] at synthesized
    by_cases old : m.serializedName ∈ seen
    · rw [groupMembers_repeated synthesized old] at h
      cases h
    cases made : memberReference parent m.serializedName with
    | error e =>
      rw [groupMembers_refused synthesized old made] at h
      cases h
    | ok reference =>
      rw [groupMembers_given synthesized old made] at h
      obtain ⟨nested, ofMember, h⟩ := exists_of_bind_eq_ok h
      obtain ⟨others, ofRest, _⟩ := exists_of_bind_eq_ok h
      obtain ⟨distinct, each⟩ := ih ofRest
      have isPath := (exists_memberReference_iff parent m.serializedName).1 ⟨_, made⟩
      have below := exists_nestedGroup_iff.1 ⟨nested, ofMember⟩
      rw [parametersAmong_cons synthesized, List.map_cons, List.nodup_cons, List.forall_mem_cons]
      -- The names of the others are apart from this one, since they were made after it.
      refine ⟨⟨fun repeated => ?_, distinct⟩, ⟨old, isPath, fun inner isRecord => ?_⟩, ?_⟩
      · obtain ⟨other, member, same⟩ := List.mem_map.1 repeated
        exact (each other member).1 (same ▸ List.mem_cons_self)
      · exact ⟨reference, below inner isRecord⟩
      · intro other member
        obtain ⟨new, rest⟩ := each other member
        exact ⟨fun met => new (List.mem_cons_of_mem _ met), rest⟩

/-- Members have accessors, if their names are new and paths, and there is a group below each that
is a record. -/
theorem exists_groupMembers (distinct : ((parametersAmong members).map Member.serializedName).Nodup)
    (new : ∀ m ∈ parametersAmong members, m.serializedName ∉ seen)
    (paths : ∀ m ∈ parametersAmong members, isReferencePath m.serializedName.toList = true)
    (nested : ∀ m ∈ parametersAmong members, ∀ inner, m.kind = .record inner →
      ∀ below, ∃ g, s.group (some below) path inner = .ok g) :
    ∃ accessors, s.groupMembers parent path record seen members = .ok accessors := by
  induction members generalizing seen with
  | nil => exact ⟨[], by rw [groupMembers]⟩
  | cons m rest ih =>
    by_cases synthesized : m.synthesized = true
    · rw [parametersAmong_cons_of_synthesized synthesized] at distinct new paths nested
      rw [groupMembers_synthesized synthesized]
      exact ih distinct new paths nested
    rw [Bool.not_eq_true] at synthesized
    rw [parametersAmong_cons synthesized, List.map_cons, List.nodup_cons] at distinct
    rw [parametersAmong_cons synthesized, List.forall_mem_cons] at new paths nested
    obtain ⟨reference, made⟩ := (exists_memberReference_iff parent m.serializedName).2 paths.1
    have below (inner : String) (isRecord : m.kind = .record inner) :=
      nested.1 inner isRecord reference
    obtain ⟨group, ofMember⟩ := exists_nestedGroup_iff.2 below
    have apart : ∀ other ∈ parametersAmong rest,
        other.serializedName ∉ m.serializedName :: seen := by
      intro other member met
      rcases List.mem_cons.1 met with same | met
      · exact distinct.1 (same ▸ List.mem_map_of_mem member)
      · exact new.2 other member met
    obtain ⟨others, ofRest⟩ := ih distinct.2 apart paths.2 nested.2
    exact ⟨_, by rw [groupMembers_given synthesized new.1 made, ofMember, ofRest]; rfl⟩

/-! ## Groups -/

theorem group_visited (visited : record ∈ path) :
    s.group parent path record = .error (.fault (.containmentCycle record path)) := by
  rw [group, dif_pos visited]

theorem group_unreadable (new : record ∉ path) {fault : SchemaFault}
    (faulty : s.membersOf record = .error fault) :
    s.group parent path record = .error (.fault fault) := by
  unfold group
  rw [dif_neg new]
  split <;> simp_all

theorem group_new (new : record ∉ path) (found : s.membersOf record = .ok members) :
    s.group parent path record =
      (s.groupMembers parent (path ++ [record]) record [] members).map (⟨record, ·⟩) := by
  rw [group, dif_neg new]
  split <;> simp_all

theorem membersOf_eq_ok_iff {name : String} :
    s.membersOf name = .ok members ↔ ∃ records, s.BaseChain name records ∧
      (records.map (·.name)).Nodup ∧ records.flatMap (·.members) = members := by
  unfold membersOf
  constructor
  · intro found
    cases above : s.ancestry [] name with
    | error fault =>
      rw [above] at found
      cases found
    | ok records =>
      rw [above] at found
      obtain ⟨chained, _, distinct⟩ := baseChain_of_ancestry_eq_ok above
      exact ⟨records, chained, distinct, Except.ok.inj found⟩
  · intro ⟨records, chained, distinct, all⟩
    rw [chained.ancestry_eq_ok (fun _ _ => List.not_mem_nil) distinct, ← all]
    rfl

/-- A group is made only of a sound record that was not met before, and with a group of each record
that it contains. -/
theorem of_group_eq_ok {g : AccessorGroup} (h : s.group parent path record = .ok g) :
    record ∉ path ∧ (∃ records, s.SoundChain record records) ∧
      ∀ inner, s.Contains record inner →
        ∃ below g', s.group (some below) (path ++ [record]) inner = .ok g' := by
  by_cases visited : record ∈ path
  · rw [group_visited visited] at h
    cases h
  cases found : s.membersOf record with
  | error fault =>
    rw [group_unreadable visited found] at h
    cases h
  | ok members =>
    rw [group_new visited found] at h
    cases made : s.groupMembers parent (path ++ [record]) record [] members with
    | error e =>
      rw [made] at h
      cases h
    | ok accessors =>
      obtain ⟨distinct, each⟩ := of_groupMembers_eq_ok made
      obtain ⟨records, chained, distinctBases, rfl⟩ := membersOf_eq_ok_iff.1 found
      refine ⟨visited, ⟨records, chained, distinctBases, distinct, fun m member => ?_⟩, ?_⟩
      · exact (each m member).2.1
      · intro inner ⟨m, has, isRecord⟩
        exact (each m (chained.hasParameter_iff.1 has)).2.2 inner isRecord

/-- There are groups of all records that are reached from a record with a group, and all records on
the way are above them. -/
theorem exists_group_of_reaches {g : AccessorGroup} {name : String}
    (h : s.group parent path record = .ok g) (reached : s.Reaches record name) :
    ∃ below path' g', s.group below path' name = .ok g' ∧ path ⊆ path' := by
  induction reached with
  | refl => exact ⟨parent, path, g, h, List.Subset.refl path⟩
  | tail _ contains ih =>
    obtain ⟨below, path', g', made, more⟩ := ih
    obtain ⟨lower, g'', inside⟩ := (of_group_eq_ok made).2.2 _ contains
    exact ⟨some lower, _, g'', inside, List.subset_append_of_subset_left _ more⟩

/-- A record with a group does not contain itself: it would be met below itself. -/
theorem not_contains_self_of_group_eq_ok {g : AccessorGroup}
    (h : s.group parent path record = .ok g) : ¬Relation.TransGen s.Contains record record := by
  intro cycle
  obtain ⟨inner, contains, reached⟩ := Relation.TransGen.head'_iff.1 cycle
  obtain ⟨below, g', inside⟩ := (of_group_eq_ok h).2.2 inner contains
  obtain ⟨_, path', _, again, more⟩ := exists_group_of_reaches inside reached
  have met : record ∈ path' := more (List.mem_append_right path List.mem_cons_self)
  exact (of_group_eq_ok again).1 met

/-- A record has a group, if all that it reaches is sound, nothing that it reaches contains itself,
and it is contained in the records above it. -/
theorem exists_group (parent : Option ParameterReference) (path : List String) (record : String)
    (sound : ∀ name, s.Reaches record name → ∃ records, s.SoundChain name records)
    (acyclic : ∀ name, s.Reaches record name → ¬Relation.TransGen s.Contains name name)
    (above : ∀ outer ∈ path, Relation.TransGen s.Contains outer record) :
    ∃ g, s.group parent path record = .ok g := by
  -- A record that was met before would contain itself.
  have new : record ∉ path := fun visited => acyclic record .refl (above record visited)
  obtain ⟨records, chain⟩ := sound record .refl
  have found := membersOf_eq_ok_iff.2 ⟨records, chain.bases, chain.distinctBases, rfl⟩
  have nested (m : Member) (member : m ∈ parametersOf records) (inner : String)
      (isRecord : m.kind = .record inner) (below : ParameterReference) :
      ∃ g, s.group (some below) (path ++ [record]) inner = .ok g := by
    have contains : s.Contains record inner := ⟨m, chain.bases.hasParameter_iff.2 member, isRecord⟩
    obtain ⟨r, declared⟩ := exists_record?_of_membersOf_eq_ok found
    have fewer := unvisited_append_lt declared new
    apply exists_group (some below) (path ++ [record]) inner
    · exact fun name reached => sound name (.head contains reached)
    · exact fun name reached => acyclic name (.head contains reached)
    -- What is above the inner record is above this one, or is this one.
    · intro outer member
      rcases List.mem_append.1 member with member | member
      · exact (above outer member).tail contains
      · rw [List.mem_singleton.1 member]
        exact .single contains
  have made : ∃ accessors, s.groupMembers parent (path ++ [record]) record []
      (records.flatMap (·.members)) = .ok accessors :=
    exists_groupMembers chain.distinctNames (fun _ _ => List.not_mem_nil) chain.paths nested
  obtain ⟨accessors, made⟩ := made
  exact ⟨⟨record, accessors⟩, by rw [group_new new found, made]; rfl⟩
termination_by s.unvisited path

/-! ## Schemas -/

theorem repeatedRecord?_eq_none_iff {records : List Record} :
    repeatedRecord? seen records = none ↔
      (records.map (·.name)).Nodup ∧ ∀ r ∈ records, r.name ∉ seen := by
  induction records generalizing seen with
  | nil => simp [repeatedRecord?]
  | cons r rest ih =>
    by_cases old : r.name ∈ seen
    · simp [repeatedRecord?, old]
    · rw [repeatedRecord?, if_neg old, ih, List.map_cons, List.nodup_cons, List.forall_mem_cons]
      constructor
      · intro ⟨distinct, new⟩
        refine ⟨⟨fun repeated => ?_, distinct⟩, old, fun other member met => ?_⟩
        · obtain ⟨other, member, same⟩ := List.mem_map.1 repeated
          exact new other member (same ▸ List.mem_cons_self)
        · exact new other member (List.mem_cons_of_mem _ met)
      · intro ⟨⟨first, distinct⟩, _, new⟩
        refine ⟨distinct, fun other member met => ?_⟩
        rcases List.mem_cons.1 met with same | met
        · exact first (same ▸ List.mem_map_of_mem member)
        · exact new other member met

/-- Members are refused for a fault, or one of them for its name, or for what is below it. -/
theorem of_groupMembers_eq_error {e : SchemaError}
    (h : s.groupMembers parent path record seen members = .error e) :
    (∃ fault, e = .fault fault) ∨ ∃ m ∈ parametersAmong members,
      (∃ refused, memberReference parent m.serializedName = .error refused ∧
        e = .reference refused) ∨
      ∃ below inner, m.kind = .record inner ∧ s.group (some below) path inner = .error e := by
  induction members generalizing seen with
  | nil =>
    rw [groupMembers] at h
    cases h
  | cons m rest ih =>
    by_cases synthesized : m.synthesized = true
    · rw [groupMembers_synthesized synthesized] at h
      rw [parametersAmong_cons_of_synthesized synthesized]
      exact ih h
    rw [Bool.not_eq_true] at synthesized
    rw [parametersAmong_cons synthesized]
    by_cases old : m.serializedName ∈ seen
    · rw [groupMembers_repeated synthesized old] at h
      exact .inl ⟨_, (Except.error.inj h).symm⟩
    cases made : memberReference parent m.serializedName with
    | error refused =>
      rw [groupMembers_refused synthesized old made] at h
      exact .inr ⟨m, List.mem_cons_self, .inl ⟨refused, made, (Except.error.inj h).symm⟩⟩
    | ok reference =>
      rw [groupMembers_given synthesized old made] at h
      cases nested : s.nestedGroup reference path m.kind with
      | error inside =>
        rw [nested] at h
        obtain ⟨⟩ := h
        exact .inr ⟨m, List.mem_cons_self, .inr ⟨reference, of_nestedGroup_eq_error nested⟩⟩
      | ok group =>
        cases others : s.groupMembers parent path record (m.serializedName :: seen) rest with
        | error later =>
          rw [nested, others] at h
          obtain ⟨⟩ := h
          rcases ih others with fault | ⟨other, member, refused⟩
          · exact .inl fault
          · exact .inr ⟨other, List.mem_cons_of_mem _ member, refused⟩
        | ok accessors =>
          rw [nested, others] at h
          cases h

/-- A group is refused for a fault, or for the name of a parameter of a record that is reached. -/
theorem of_group_eq_error (parent : Option ParameterReference) (path : List String)
    (record : String) {e : SchemaError} (h : s.group parent path record = .error e) :
    (∃ fault, e = .fault fault) ∨
      ∃ refused, s.RefusesName record refused ∧ e = .reference refused := by
  by_cases visited : record ∈ path
  · rw [group_visited visited] at h
    exact .inl ⟨_, (Except.error.inj h).symm⟩
  cases found : s.membersOf record with
  | error fault =>
    rw [group_unreadable visited found] at h
    exact .inl ⟨fault, (Except.error.inj h).symm⟩
  | ok members =>
    rw [group_new visited found] at h
    cases made : s.groupMembers parent (path ++ [record]) record [] members with
    | ok accessors =>
      rw [made] at h
      cases h
    | error inside =>
      rw [made] at h
      obtain ⟨⟩ := h
      obtain ⟨records, chained, _, rfl⟩ := membersOf_eq_ok_iff.1 found
      rcases of_groupMembers_eq_error made with fault | ⟨m, member, malformed | below⟩
      · exact .inl fault
      · obtain ⟨refused, notMade, rfl⟩ := malformed
        have noPath : isReferencePath m.serializedName.toList = false := by
          rw [← Bool.not_eq_true, ← exists_memberReference_iff parent, notMade]
          simp
        exact .inr ⟨refused, ⟨record, m, .refl, chained.hasParameter_iff.2 member, noPath,
          suffix_of_memberReference_eq_error notMade⟩, rfl⟩
      · obtain ⟨reference, inner, isRecord, refused⟩ := below
        obtain ⟨r, declared⟩ := exists_record?_of_membersOf_eq_ok found
        have fewer := unvisited_append_lt declared visited
        have contains : s.Contains record inner :=
          ⟨m, chained.hasParameter_iff.2 member, isRecord⟩
        rcases of_group_eq_error (some reference) (path ++ [record]) inner refused with fault |
          ⟨refused, ⟨name, other, reached, malformed⟩, isRefused⟩
        · exact .inl fault
        · exact .inr ⟨refused, ⟨name, other, .head contains reached, malformed⟩, isRefused⟩
termination_by s.unvisited path

theorem accessors_eq_group {root : String} (distinct : (s.records.map (·.name)).Nodup) :
    s.accessors root = s.group none [] root := by
  have unrepeated : repeatedRecord? [] s.records = none :=
    repeatedRecord?_eq_none_iff.2 ⟨distinct, fun _ _ => List.not_mem_nil⟩
  rw [accessors, unrepeated]

/-- A schema with two records of one name is refused for it. -/
theorem exists_accessors_eq_fault (root : String) (repeats : ¬(s.records.map (·.name)).Nodup) :
    ∃ name, s.accessors root = .error (.fault (.repeatedRecord name)) := by
  unfold accessors
  cases repeated : repeatedRecord? [] s.records with
  | some name => exact ⟨name, rfl⟩
  | none => exact absurd (repeatedRecord?_eq_none_iff.1 repeated).1 repeats

/-- The schema is consistent from each record on that has a group somewhere. -/
theorem consistent_of_group_eq_ok {g : AccessorGroup} (distinct : (s.records.map (·.name)).Nodup)
    (made : s.group parent path record = .ok g) : s.Consistent record := by
  refine ⟨distinct, fun name reached => ?_, fun name reached => ?_⟩
  · obtain ⟨_, _, _, inside, _⟩ := exists_group_of_reaches made reached
    exact (of_group_eq_ok inside).2.1
  · obtain ⟨_, _, _, inside, _⟩ := exists_group_of_reaches made reached
    exact not_contains_self_of_group_eq_ok inside

theorem exists_group_iff {root : String} (distinct : (s.records.map (·.name)).Nodup) :
    (∃ g, s.group none [] root = .ok g) ↔ s.Consistent root := by
  constructor
  · intro ⟨g, made⟩
    exact consistent_of_group_eq_ok distinct made
  · intro consistent
    exact exists_group none [] root consistent.sound consistent.acyclic (List.forall_mem_nil _)

/-- **A schema has accessors from a root record on exactly if it is consistent from there on**, and
all that it may be refused for is a fault, or the name of a parameter that is no path. -/
theorem exists_accessors_iff (s : Schema) (root : String) :
    ((∃ g, s.accessors root = .ok g) ↔ s.Consistent root) ∧
      ∀ e, s.accessors root = .error e → (∃ fault, e = .fault fault) ∨
        ∃ refused, s.RefusesName root refused ∧ e = .reference refused := by
  by_cases distinct : (s.records.map (·.name)).Nodup
  · rw [accessors_eq_group distinct]
    exact ⟨exists_group_iff distinct, fun e refused => of_group_eq_error none [] root refused⟩
  · obtain ⟨name, faulty⟩ := exists_accessors_eq_fault root distinct
    rw [faulty]
    refine ⟨⟨?_, fun consistent => absurd consistent.distinctRecords distinct⟩, fun e refused => ?_⟩
    · intro ⟨g, made⟩
      cases made
    · exact .inl ⟨_, (Except.error.inj refused).symm⟩

end Schema

end AzurePipelines
