import AzurePipelines.Schema.Basic

/-!
# Accessors of parameters

`Schema.accessors` follows a schema from a root record and gives every parameter that it describes a
reference: own members first, then those of each base, and below a member whose type is a record the
accessors of that record.  Following bases and following members both end on every schema, because
neither visits a record twice: a second visit is a fault.
-/

namespace AzurePipelines

/-! ## Groups -/

mutual

/-- The accessors of a record at one position of the tree of parameters. -/
structure AccessorGroup where
  record : String
  members : List Accessor

/-- The accessor of one parameter. -/
structure Accessor where
  member : String
  kind : MemberKind
  reference : ParameterReference
  /-- The accessors below a parameter whose type is a record. -/
  nested : Option AccessorGroup

end

/-- The accessor of a member. -/
def AccessorGroup.get? (g : AccessorGroup) (member : String) : Option Accessor :=
  g.members.find? (·.member == member)

mutual

/-- All accessors of the group, each before those below it. -/
def AccessorGroup.flatten : AccessorGroup → List Accessor
  | ⟨_, members⟩ => flattenMembers members

def flattenMembers : List Accessor → List Accessor
  | [] => []
  | accessor :: rest => accessor.flatten ++ flattenMembers rest

def Accessor.flatten : Accessor → List Accessor
  | ⟨member, kind, reference, nested⟩ =>
    ⟨member, kind, reference, nested⟩ :: flattenNested nested

def flattenNested : Option AccessorGroup → List Accessor
  | none => []
  | some group => group.flatten

end

/-- All references of the group, each before those below it. -/
def AccessorGroup.references (g : AccessorGroup) : List ParameterReference :=
  g.flatten.map (·.reference)

namespace Schema

/-! ## Records not yet visited -/

/-- The number of declared records whose names are not among those visited. -/
def unvisited (s : Schema) (visited : List String) : Nat :=
  (s.records.filter fun r => decide (r.name ∉ visited)).length

theorem unvisited_append_lt {s : Schema} {visited : List String} {name : String} {r : Record}
    (h : s.record? name = some r) (new : name ∉ visited) :
    s.unvisited (visited ++ [name]) < s.unvisited visited := by
  obtain ⟨mem, rfl⟩ := mem_of_record?_eq_some h
  have split : (s.records.filter fun x => decide (x.name ∉ visited ++ [r.name])) =
      (s.records.filter fun x => decide (x.name ∉ visited)).filter
        fun x => decide (x.name ≠ r.name) := by
    rw [List.filter_filter]
    congr 1
    funext x
    by_cases a : x.name ∈ visited <;> by_cases b : x.name = r.name <;> simp [a, b]
  unfold unvisited
  rw [split, List.length_filter_lt_length_iff_exists]
  exact ⟨r, List.mem_filter.2 ⟨mem, by simpa using new⟩, by simp⟩

/-! ## Bases -/

/-- The record of a name and its bases, where `chain` holds the names of the records above it. -/
def ancestry (s : Schema) (chain : List String) (name : String) :
    Except SchemaFault (List Record) :=
  if _visited : name ∈ chain then .error (.inheritanceCycle chain name)
  else
    match _declared : s.record? name with
    | none => .error (.unknownRecord name)
    | some r =>
      match r.base with
      | none => .ok [r]
      | some base => (s.ancestry (chain ++ [name]) base).map (r :: ·)
termination_by s.unvisited chain
decreasing_by exact unvisited_append_lt _declared _visited

/-- The members of a record followed by those of each base. -/
def membersOf (s : Schema) (name : String) : Except SchemaFault (List Member) :=
  (s.ancestry [] name).map fun records => records.flatMap (·.members)

theorem exists_record?_of_membersOf_eq_ok {s : Schema} {name : String} {members : List Member}
    (h : s.membersOf name = .ok members) : ∃ r, s.record? name = some r := by
  unfold membersOf ancestry at h
  cases declared : s.record? name with
  | some r => exact ⟨r, rfl⟩
  | none =>
    simp only [List.not_mem_nil, dite_false] at h
    split at h
    · simp [Except.map] at h
    · simp_all

/-! ## Members -/

/-- The reference to a member of the parameter `parent`, or to a parameter of its own. -/
def memberReference (parent : Option ParameterReference) (name : String) :
    Except ReferenceError ParameterReference :=
  match parent with
  | some parent => parent.member name
  | none => ParameterReference.parse name

mutual

/-- The accessors of a record below the parameter `parent`; `path` holds the names of the records
that contain it. -/
def group (s : Schema) (parent : Option ParameterReference) (path : List String)
    (record : String) : Except SchemaError AccessorGroup :=
  if _visited : record ∈ path then .error (.fault (.containmentCycle record path))
  else
    match _members : s.membersOf record with
    | .error fault => .error (.fault fault)
    | .ok all => (s.groupMembers parent (path ++ [record]) record [] all).map (⟨record, ·⟩)
termination_by (s.unvisited path, 0)
decreasing_by
  obtain ⟨r, declared⟩ := exists_record?_of_membersOf_eq_ok _members
  exact .left _ _ (unvisited_append_lt declared _visited)

/-- The accessors of members, where `seen` holds the names of the parameters before them. -/
def groupMembers (s : Schema) (parent : Option ParameterReference) (path : List String)
    (record : String) (seen : List String) : List Member → Except SchemaError (List Accessor)
  | [] => .ok []
  | m :: rest =>
    if m.synthesized then s.groupMembers parent path record seen rest
    else if m.serializedName ∈ seen then
      .error (.fault (.repeatedMember record m.serializedName))
    else
      match memberReference parent m.serializedName with
      | .error e => .error (.reference e)
      | .ok reference => do
        let nested ← match m.kind with
          | .record name => (s.group (some reference) path name).map some
          | _ => .ok none
        let others ← s.groupMembers parent path record (m.serializedName :: seen) rest
        return ⟨m.name, m.kind, reference, nested⟩ :: others
termination_by members => (s.unvisited path, members.length + 1)

end

/-- The first record whose name an earlier record has, where `seen` holds the names before. -/
def repeatedRecord? (seen : List String) : List Record → Option String
  | [] => none
  | r :: rest => if r.name ∈ seen then some r.name else repeatedRecord? (r.name :: seen) rest

/-- The accessors of all parameters that the schema describes from a root record on. -/
def accessors (s : Schema) (root : String) : Except SchemaError AccessorGroup :=
  match repeatedRecord? [] s.records with
  | some name => .error (.fault (.repeatedRecord name))
  | none => s.group none [] root

end Schema

end AzurePipelines
