import AzurePipelines.Proofs.Schema.Consistency
import Mathlib

/-!
# Accessors are put together from those of bases and nested records

The accessors of a record are those of its own parameters, followed by those of its base; and the
group below a parameter whose type is a record holds the accessors of that record, moved below the
parameter (`AccessorGroup.under`), at whatever position the record stands
(`Schema.accessors_composition`).

A group is made in a context: the parameter that it is below, and the records that contain it.  The
context only decides whether there is a group.  Fewer records above leave a group as it is
(`Schema.group_eq_ok_of_subset`), and below a parameter each of its references is lengthened by that
of the parameter (`Schema.group_under`).
-/

namespace AzurePipelines

/-! ## References below a parameter -/

namespace ParameterReference

theorem path_of_parse_eq_ok {path : String} {r : ParameterReference} (h : parse path = .ok r) :
    r.path = path := by
  unfold parse at h
  split at h
  · cases h
    rfl
  · cases h

theorem parse_eq_ok_iff {path : String} {r : ParameterReference} :
    parse path = .ok r ↔ r.path = path := by
  constructor
  · exact path_of_parse_eq_ok
  · rintro rfl
    obtain ⟨made, isMade⟩ := (exists_parse_iff r.path).2 r.isPath
    rw [isMade, eq_of_path_eq (path_of_parse_eq_ok isMade)]

/-- The parameter of the second reference, as it is called below that of the first. -/
def append (above r : ParameterReference) : ParameterReference where
  path := above.path ++ "." ++ r.path
  isPath := by
    have joined : (above.path ++ "." ++ r.path).toList =
        above.path.toList ++ '.' :: r.path.toList := by
      simp
    rw [joined, isReferencePath_append_cons, above.isPath, r.isPath, Bool.and_self]

theorem path_append (above r : ParameterReference) :
    (above.append r).path = above.path ++ "." ++ r.path :=
  rfl

theorem append_assoc (a b c : ParameterReference) :
    (a.append b).append c = a.append (b.append c) := by
  apply eq_of_path_eq
  simp only [path_append, String.append_assoc]

theorem append_right_injective (above : ParameterReference) :
    Function.Injective above.append := by
  intro one other same
  have paths : above.path ++ "." ++ one.path = above.path ++ "." ++ other.path :=
    congrArg path same
  exact eq_of_path_eq ((String.append_right_inj _).1 paths)

end ParameterReference

/-! ## Groups below a parameter -/

mutual

/-- The accessors of the group, each with its reference below the parameter `above`. -/
def AccessorGroup.under (above : ParameterReference) : AccessorGroup → AccessorGroup
  | ⟨record, members⟩ => ⟨record, membersUnder above members⟩

def membersUnder (above : ParameterReference) : List Accessor → List Accessor
  | [] => []
  | accessor :: rest => accessor.under above :: membersUnder above rest

def Accessor.under (above : ParameterReference) : Accessor → Accessor
  | ⟨member, kind, reference, nested⟩ =>
    ⟨member, kind, above.append reference, nestedUnder above nested⟩

def nestedUnder (above : ParameterReference) : Option AccessorGroup → Option AccessorGroup
  | none => none
  | some group => some (group.under above)

end

theorem membersUnder_eq_map (above : ParameterReference) (members : List Accessor) :
    membersUnder above members = members.map (·.under above) := by
  induction members with
  | nil => rfl
  | cons accessor rest ih => rw [membersUnder, ih, List.map_cons]

theorem AccessorGroup.under_eq (above : ParameterReference) (g : AccessorGroup) :
    g.under above = ⟨g.record, g.members.map (·.under above)⟩ := by
  obtain ⟨record, members⟩ := g
  rw [under, membersUnder_eq_map]

theorem AccessorGroup.members_under (above : ParameterReference) (g : AccessorGroup) :
    (g.under above).members = g.members.map (·.under above) := by
  rw [under_eq]

theorem Accessor.under_eq (above : ParameterReference) (a : Accessor) :
    a.under above =
      ⟨a.member, a.kind, above.append a.reference, a.nested.map (·.under above)⟩ := by
  obtain ⟨member, kind, reference, nested⟩ := a
  cases nested <;> rfl

theorem Accessor.member_under (above : ParameterReference) (a : Accessor) :
    (a.under above).member = a.member := by
  rw [under_eq]

theorem Accessor.kind_under (above : ParameterReference) (a : Accessor) :
    (a.under above).kind = a.kind := by
  rw [under_eq]

theorem Accessor.reference_under (above : ParameterReference) (a : Accessor) :
    (a.under above).reference = above.append a.reference := by
  rw [under_eq]

theorem Accessor.nested_under (above : ParameterReference) (a : Accessor) :
    (a.under above).nested = a.nested.map (·.under above) := by
  rw [under_eq]

-- Moved below two parameters, one after the other, a group is below the one inside the other.

mutual

theorem AccessorGroup.under_under (a b : ParameterReference) :
    ∀ g : AccessorGroup, (g.under b).under a = g.under (a.append b)
  | ⟨record, members⟩ => by
    simp only [AccessorGroup.under, membersUnder_membersUnder a b members]

theorem membersUnder_membersUnder (a b : ParameterReference) :
    ∀ members : List Accessor,
      membersUnder a (membersUnder b members) = membersUnder (a.append b) members
  | [] => rfl
  | accessor :: rest => by
    simp only [membersUnder, Accessor.under_under a b accessor, membersUnder_membersUnder a b rest]

theorem Accessor.under_under (a b : ParameterReference) :
    ∀ accessor : Accessor, (accessor.under b).under a = accessor.under (a.append b)
  | ⟨member, kind, reference, none⟩ => by
    simp only [Accessor.under, nestedUnder, ParameterReference.append_assoc]
  | ⟨member, kind, reference, some group⟩ => by
    simp only [Accessor.under, nestedUnder, ParameterReference.append_assoc,
      AccessorGroup.under_under a b group]

end

/-- What stands somewhere in a group below a parameter stands there in the group itself. -/
theorem AccessorGroup.At.exists_of_under {above : ParameterReference} {g : AccessorGroup}
    {way : List String} {b : Accessor} (leads : (g.under above).At way b) :
    ∃ a, g.At way a ∧ b = a.under above := by
  generalize moved : g.under above = g' at leads
  induction leads generalizing g with
  | here member =>
    rw [← moved, members_under] at member
    obtain ⟨a, inGroup, rfl⟩ := List.mem_map.1 member
    refine ⟨a, ?_, rfl⟩
    rw [Accessor.member_under]
    exact .here inGroup
  | inside member nested _ ih =>
    rw [← moved, members_under] at member
    obtain ⟨a, inGroup, rfl⟩ := List.mem_map.1 member
    rw [Accessor.nested_under] at nested
    obtain ⟨child, below, rfl⟩ := Option.map_eq_some_iff.1 nested
    obtain ⟨inner, leads, rfl⟩ := ih rfl
    rw [Accessor.member_under]
    exact ⟨inner, .inside inGroup below leads, rfl⟩

namespace Schema

variable {s : Schema} {parent : Option ParameterReference} {path seen : List String}
  {record : String} {m : Member} {a : Accessor} {members : List Member}
  {accessors : List Accessor} {g : AccessorGroup}

/-! ## Steps -/

/-- A parameter of a record, and the accessor that is made of it. -/
structure Makes (s : Schema) (parent : Option ParameterReference) (path : List String)
    (m : Member) (a : Accessor) : Prop where
  member : a.member = m.name
  kind : a.kind = m.kind
  reference : memberReference parent m.serializedName = .ok a.reference
  nested : s.nestedGroup a.reference path m.kind = .ok a.nested

theorem makes_of_groupMembers_eq_ok
    (h : s.groupMembers parent path record seen members = .ok accessors) :
    List.Forall₂ (s.Makes parent path) (parametersAmong members) accessors := by
  induction members generalizing seen accessors with
  | nil =>
    rw [groupMembers] at h
    cases h
    exact .nil
  | cons m rest ih =>
    by_cases synthesized : m.synthesized = true
    · rw [groupMembers_synthesized synthesized] at h
      rw [parametersAmong_cons_of_synthesized synthesized]
      exact ih h
    rw [Bool.not_eq_true] at synthesized
    rw [parametersAmong_cons synthesized]
    by_cases old : m.serializedName ∈ seen
    · rw [groupMembers_repeated synthesized old] at h
      cases h
    cases made : memberReference parent m.serializedName with
    | error e =>
      rw [groupMembers_refused synthesized old made] at h
      cases h
    | ok reference =>
      rw [groupMembers_given synthesized old made] at h
      obtain ⟨nested, ofMember, h⟩ := exists_of_bind_eq_ok h
      obtain ⟨others, ofRest, h⟩ := exists_of_bind_eq_ok h
      cases h
      exact .cons ⟨rfl, rfl, made, ofMember⟩ (ih ofRest)

theorem groupMembers_eq_ok_of_makes
    (distinct : ((parametersAmong members).map Member.serializedName).Nodup)
    (new : ∀ m ∈ parametersAmong members, m.serializedName ∉ seen)
    (made : List.Forall₂ (s.Makes parent path) (parametersAmong members) accessors) :
    s.groupMembers parent path record seen members = .ok accessors := by
  induction members generalizing seen accessors with
  | nil =>
    cases made
    rw [groupMembers]
  | cons m rest ih =>
    by_cases synthesized : m.synthesized = true
    · rw [parametersAmong_cons_of_synthesized synthesized] at distinct new made
      rw [groupMembers_synthesized synthesized]
      exact ih distinct new made
    rw [Bool.not_eq_true] at synthesized
    rw [parametersAmong_cons synthesized] at distinct new made
    rw [List.map_cons, List.nodup_cons] at distinct
    rw [List.forall_mem_cons] at new
    cases made with
    | @cons _ a _ others first later =>
      have apart : ∀ other ∈ parametersAmong rest,
          other.serializedName ∉ m.serializedName :: seen := by
        intro other member met
        rcases List.mem_cons.1 met with same | met
        · exact distinct.1 (same ▸ List.mem_map_of_mem member)
        · exact new.2 other member met
      obtain ⟨member, kind, reference, nested⟩ := a
      obtain ⟨rfl, rfl, isReference, isNested⟩ := first
      rw [groupMembers_given synthesized new.1 isReference, isNested, ih distinct.2 apart later]
      rfl

/-- A group is made of a record that was not met before, with one accessor for each parameter. -/
theorem group_eq_ok_iff : s.group parent path record = .ok g ↔ record ∉ path ∧
    ∃ members, s.membersOf record = .ok members ∧
      ((parametersAmong members).map Member.serializedName).Nodup ∧ g.record = record ∧
      List.Forall₂ (s.Makes parent (path ++ [record])) (parametersAmong members) g.members := by
  constructor
  · intro h
    have new := (of_group_eq_ok h).1
    cases found : s.membersOf record with
    | error fault =>
      rw [group_unreadable new found] at h
      cases h
    | ok members =>
      rw [group_new new found] at h
      cases made : s.groupMembers parent (path ++ [record]) record [] members with
      | error e =>
        rw [made] at h
        cases h
      | ok accessors =>
        rw [made] at h
        cases h
        exact ⟨new, members, rfl, (of_groupMembers_eq_ok made).1, rfl,
          makes_of_groupMembers_eq_ok made⟩
  · obtain ⟨name, accessors⟩ := g
    rintro ⟨new, members, found, distinct, rfl, made⟩
    rw [group_new new found,
      groupMembers_eq_ok_of_makes distinct (fun _ _ => List.not_mem_nil) made]
    rfl

theorem nestedGroup_map {reference reference' : ParameterReference} {path' : List String}
    {kind : MemberKind} {nested : Option AccessorGroup} {f : AccessorGroup → AccessorGroup}
    (h : s.nestedGroup reference path kind = .ok nested)
    (each : ∀ inner child, kind = .record inner → s.group (some reference) path inner = .ok child →
      s.group (some reference') path' inner = .ok (f child)) :
    s.nestedGroup reference' path' kind = .ok (nested.map f) := by
  cases kind with
  | record inner =>
    rw [nestedGroup] at h ⊢
    cases made : s.group (some reference) path inner with
    | error e =>
      rw [made] at h
      cases h
    | ok child =>
      rw [made] at h
      cases h
      rw [each inner child rfl made]
      rfl
  | _ =>
    cases h
    rfl

/-- A group is carried into another context, if its accessors are. -/
theorem group_map {parent' : Option ParameterReference} {path' : List String}
    {f : Accessor → Accessor} (h : s.group parent path record = .ok g) (new : record ∉ path')
    (each : ∀ m a, s.Makes parent (path ++ [record]) m a →
      s.Makes parent' (path' ++ [record]) m (f a)) :
    s.group parent' path' record = .ok ⟨record, g.members.map f⟩ := by
  obtain ⟨_, members, found, distinct, _, made⟩ := group_eq_ok_iff.1 h
  refine group_eq_ok_iff.2 ⟨new, members, found, distinct, rfl, ?_⟩
  rw [List.forall₂_map_right_iff]
  exact made.imp each

/-! ## Contexts -/

/-- With fewer records above it a group is the same. -/
theorem group_eq_ok_of_subset {parent : Option ParameterReference} {path fewer : List String}
    {record : String} {g : AccessorGroup} (h : s.group parent path record = .ok g)
    (subset : fewer ⊆ path) : s.group parent fewer record = .ok g := by
  obtain ⟨new, members, found, _, named, _⟩ := group_eq_ok_iff.1 h
  obtain ⟨r, declared⟩ := exists_record?_of_membersOf_eq_ok found
  have smaller := unvisited_append_lt declared new
  have more : fewer ++ [record] ⊆ path ++ [record] :=
    List.append_subset.2 ⟨List.subset_append_of_subset_left _ subset, List.subset_append_right _ _⟩
  have carried := group_map (f := id) h (fun visited => new (subset visited)) fun m a makes => by
    refine ⟨makes.member, makes.kind, makes.reference, ?_⟩
    have nested := nestedGroup_map (f := id) makes.nested fun inner child _ made =>
      group_eq_ok_of_subset made more
    rwa [Option.map_id] at nested
  obtain ⟨name, accessors⟩ := g
  rw [carried, List.map_id, ← named]
termination_by s.unvisited path

theorem memberReference_none_eq_ok_iff {name : String} {r : ParameterReference} :
    memberReference none name = .ok r ↔ r.path = name :=
  ParameterReference.parse_eq_ok_iff

theorem memberReference_some_eq_ok_iff {above r : ParameterReference} {name : String} :
    memberReference (some above) name = .ok r ↔ r.path = above.path ++ "." ++ name :=
  ParameterReference.parse_eq_ok_iff

theorem memberReference_under {above r : ParameterReference} {name : String}
    (h : memberReference parent name = .ok r) :
    memberReference (some (parent.elim above above.append)) name = .ok (above.append r) := by
  rw [memberReference_some_eq_ok_iff]
  cases parent with
  | none =>
    rw [← memberReference_none_eq_ok_iff.1 h]
    rfl
  | some parent =>
    have written := memberReference_some_eq_ok_iff.1 h
    rw [ParameterReference.path_append, written, Option.elim, ParameterReference.path_append]
    simp only [String.append_assoc]

/-- Below a parameter, or below one more, a group has its references below that parameter. -/
theorem group_under {parent : Option ParameterReference} {path : List String} {record : String}
    {g : AccessorGroup} (above : ParameterReference) (h : s.group parent path record = .ok g) :
    s.group (some (parent.elim above above.append)) path record = .ok (g.under above) := by
  obtain ⟨new, members, found, _, named, _⟩ := group_eq_ok_iff.1 h
  obtain ⟨r, declared⟩ := exists_record?_of_membersOf_eq_ok found
  have smaller := unvisited_append_lt declared new
  have carried := group_map (f := (·.under above)) h new fun m a makes => by
    rw [Accessor.under_eq]
    refine ⟨makes.member, makes.kind, memberReference_under makes.reference, ?_⟩
    exact nestedGroup_map makes.nested fun inner child _ made => group_under above made
  rw [carried, AccessorGroup.under_eq, named]
termination_by s.unvisited path

/-! ## Inherited and contained records -/

theorem accessors_eq_ok_iff :
    s.accessors record = .ok g ↔
      (s.records.map (·.name)).Nodup ∧ s.group none [] record = .ok g := by
  by_cases distinct : (s.records.map (·.name)).Nodup
  · rw [accessors_eq_group distinct]
    exact ⟨fun made => ⟨distinct, made⟩, And.right⟩
  · obtain ⟨name, faulty⟩ := exists_accessors_eq_fault record distinct
    rw [faulty]
    exact ⟨nofun, fun made => absurd made.1 distinct⟩

theorem Consistent.exists_accessors (consistent : s.Consistent record) :
    ∃ g, s.accessors record = .ok g := by
  obtain ⟨g, made⟩ := (exists_group_iff consistent.distinctRecords).2 consistent
  exact ⟨g, accessors_eq_ok_iff.2 ⟨consistent.distinctRecords, made⟩⟩

/-- A record contains what its base contains. -/
theorem Inherits.contains {base inner : String} (inherits : s.Inherits record base)
    (contains : s.Contains base inner) : s.Contains record inner := by
  obtain ⟨m, ⟨ancestor, r, above, declared, member⟩, isRecord⟩ := contains
  exact ⟨m, ⟨ancestor, r, .head inherits above, declared, member⟩, isRecord⟩

theorem Inherits.exists_soundChain {base : String} (inherits : s.Inherits record base)
    {records : List Record} (sound : s.SoundChain record records) :
    ∃ bases, s.SoundChain base bases := by
  obtain ⟨r, declared, goesOn⟩ := inherits
  cases sound.bases with
  | last again ends =>
    rw [declared] at again
    cases again
    rw [goesOn] at ends
    cases ends
  | @next _ base' r' bases again goesOn' chained =>
    rw [declared] at again
    cases again
    rw [goesOn] at goesOn'
    cases goesOn'
    have inherited : (parametersOf bases).Sublist (parametersOf (r :: bases)) := by
      rw [parametersOf, parametersOf, List.flatMap_cons, parametersAmong, parametersAmong,
        List.filter_append]
      exact List.sublist_append_right _ _
    exact ⟨bases, chained, (List.nodup_cons.1 sound.distinctBases).2,
      (inherited.map _).nodup sound.distinctNames,
      fun m member => sound.paths m (inherited.subset member)⟩

theorem Consistent.base {base : String} (consistent : s.Consistent record)
    (inherits : s.Inherits record base) : s.Consistent base := by
  refine ⟨consistent.distinctRecords, fun name reached => ?_, fun name reached cycle => ?_⟩
  · rcases Relation.ReflTransGen.cases_head reached with rfl | ⟨inner, contains, reached⟩
    · obtain ⟨records, sound⟩ := consistent.sound record .refl
      exact inherits.exists_soundChain sound
    · exact consistent.sound name (.head (inherits.contains contains) reached)
  · -- A record on the way around is contained in the record that inherits as well.
    obtain ⟨inner, contains, back⟩ := Relation.TransGen.head'_iff.1 cycle
    rcases Relation.ReflTransGen.cases_head reached with rfl | ⟨first, enters, reached⟩
    · exact consistent.acyclic inner (.single (inherits.contains contains))
        (Relation.TransGen.tail' back contains)
    · exact consistent.acyclic name (.head (inherits.contains enters) reached) cycle

theorem membersOf_of_declared {r : Record} (declared : s.record? record = some r)
    (found : s.membersOf record = .ok members) :
    (r.base = none → members = r.members) ∧
      ∀ base, r.base = some base → ∃ inherited, s.membersOf base = .ok inherited ∧
        members = r.members ++ inherited := by
  obtain ⟨records, chained, distinct, rfl⟩ := membersOf_eq_ok_iff.1 found
  cases chained with
  | last again ends =>
    rw [declared] at again
    cases again
    simp [ends]
  | @next _ base _ bases again goesOn chained =>
    rw [declared] at again
    cases again
    refine ⟨by simp [goesOn], fun base' same => ?_⟩
    rw [goesOn] at same
    cases same
    exact ⟨_, membersOf_eq_ok_iff.2 ⟨bases, chained, (List.nodup_cons.1 distinct).2, rfl⟩, rfl⟩

/-! ## Composition -/

/-- The group below a parameter: the accessors of the record that is its type, and nothing where
its type is built in. -/
def Nests (s : Schema) (reference : ParameterReference) :
    MemberKind → Option AccessorGroup → Prop
  | .record inner, nested => ∃ g, s.accessors inner = .ok g ∧ nested = some (g.under reference)
  | _, nested => nested = none

/-- The accessor of a parameter of a root record. -/
structure Describes (s : Schema) (m : Member) (a : Accessor) : Prop where
  member : a.member = m.name
  kind : a.kind = m.kind
  path : a.reference.path = m.serializedName
  nested : s.Nests a.reference a.kind a.nested

theorem Nests.unique {reference : ParameterReference} {kind : MemberKind}
    {one other : Option AccessorGroup} (h : s.Nests reference kind one)
    (h' : s.Nests reference kind other) : one = other := by
  cases kind with
  | record inner =>
    obtain ⟨g, made, rfl⟩ := h
    obtain ⟨g', made', rfl⟩ := h'
    rw [made] at made'
    cases made'
    rfl
  | _ => exact h.trans h'.symm

/-- What is nested in an accessor is the group of the record that is its type, moved below it. -/
theorem Nests.exists_of_some {reference : ParameterReference} {kind : MemberKind}
    {child : AccessorGroup} (nests : s.Nests reference kind (some child)) :
    ∃ inner below, kind = .record inner ∧ s.accessors inner = .ok below ∧
      child = below.under reference := by
  cases kind with
  | record inner =>
    obtain ⟨below, found, moved⟩ := nests
    exact ⟨inner, below, rfl, found, Option.some.inj moved⟩
  | _ => cases nests

/-- A parameter has one accessor only. -/
theorem rightUnique_describes (s : Schema) : Relator.RightUnique s.Describes := by
  intro m a b describes describes'
  obtain ⟨name, kind, reference, nested⟩ := a
  obtain ⟨name', kind', reference', nested'⟩ := b
  obtain ⟨rfl, rfl, written, nests⟩ := describes
  obtain ⟨rfl, rfl, written', nests'⟩ := describes'
  obtain rfl := ParameterReference.eq_of_path_eq (written.trans written'.symm)
  obtain rfl := nests.unique nests'
  rfl

/-- A group that is made below a parameter holds the accessors of its record. -/
theorem exists_accessors_of_group_eq_ok {above : ParameterReference}
    (distinct : (s.records.map (·.name)).Nodup)
    (made : s.group (some above) path record = .ok g) :
    ∃ below, s.accessors record = .ok below ∧ g = below.under above := by
  obtain ⟨below, found⟩ := (consistent_of_group_eq_ok distinct made).exists_accessors
  have moved := group_under above (accessors_eq_ok_iff.1 found).2
  have alone := group_eq_ok_of_subset made (List.nil_subset path)
  exact ⟨below, found, Except.ok.inj (alone.symm.trans moved)⟩

theorem Makes.describes (distinct : (s.records.map (·.name)).Nodup)
    (makes : s.Makes none path m a) : s.Describes m a := by
  obtain ⟨name, kind, reference, nested⟩ := a
  obtain ⟨rfl, rfl, isReference, isNested⟩ := makes
  refine ⟨rfl, rfl, memberReference_none_eq_ok_iff.1 isReference, ?_⟩
  dsimp only at isNested ⊢
  generalize m.kind = kind at isNested
  cases kind with
  | record inner =>
    rw [nestedGroup] at isNested
    cases made : s.group (some reference) path inner with
    | error e =>
      rw [made] at isNested
      cases isNested
    | ok child =>
      rw [made] at isNested
      cases isNested
      obtain ⟨below, found, rfl⟩ := exists_accessors_of_group_eq_ok distinct made
      exact ⟨below, found, rfl⟩
  | _ =>
    cases isNested
    rfl

/-- A root record has one accessor for each of its parameters, in their order. -/
theorem describes_of_accessors_eq_ok (h : s.accessors record = .ok g) :
    ∃ members, s.membersOf record = .ok members ∧
      List.Forall₂ s.Describes (parametersAmong members) g.members := by
  obtain ⟨distinct, made⟩ := accessors_eq_ok_iff.1 h
  obtain ⟨_, members, found, _, _, each⟩ := group_eq_ok_iff.1 made
  exact ⟨members, found, each.imp fun _ _ makes => makes.describes distinct⟩

theorem Nests.under {reference : ParameterReference} {kind : MemberKind}
    {nested : Option AccessorGroup} (h : s.Nests reference kind nested)
    (above : ParameterReference) :
    s.Nests (above.append reference) kind (nested.map (·.under above)) := by
  cases kind with
  | record inner =>
    obtain ⟨g, made, rfl⟩ := h
    exact ⟨g, made, congrArg some (AccessorGroup.under_under above reference g)⟩
  | _ =>
    obtain rfl : nested = none := h
    rfl

theorem parametersAmong_append (own inherited : List Member) :
    parametersAmong (own ++ inherited) = parametersAmong own ++ parametersAmong inherited :=
  List.filter_append own inherited

theorem exists_append_of_forall₂_append {α β : Type} {R : α → β → Prop} {xs ys : List α}
    {zs : List β} (h : List.Forall₂ R (xs ++ ys) zs) :
    ∃ us vs, zs = us ++ vs ∧ List.Forall₂ R xs us ∧ List.Forall₂ R ys vs := by
  have first := List.forall₂_take xs.length h
  have second := List.forall₂_drop xs.length h
  rw [List.take_left] at first
  rw [List.drop_left] at second
  exact ⟨_, _, (List.take_append_drop xs.length zs).symm, first, second⟩

theorem exists_of_mem_right {α β : Type} {R : α → β → Prop} {xs : List α} {ys : List β}
    (h : List.Forall₂ R xs ys) {y : β} (member : y ∈ ys) : ∃ x ∈ xs, R x y := by
  induction h with
  | nil => cases member
  | cons first _ ih =>
    rcases List.mem_cons.1 member with rfl | member
    · exact ⟨_, List.mem_cons_self, first⟩
    · obtain ⟨x, inTail, related⟩ := ih member
      exact ⟨x, List.mem_cons_of_mem _ inTail, related⟩

/-- Below each accessor of a tree stands what belongs below a parameter of its type. -/
theorem nests_of_at {way : List String} (h : s.accessors record = .ok g) (leads : g.At way a) :
    s.Nests a.reference a.kind a.nested := by
  induction way generalizing record g a with
  | nil => exact absurd rfl leads.ne_nil
  | cons name way ih =>
    obtain ⟨members, found, each⟩ := describes_of_accessors_eq_ok h
    cases leads with
    | here member =>
      obtain ⟨m, _, describes⟩ := exists_of_mem_right each member
      exact describes.nested
    | @inside _ child b _ _ member nested leads =>
      obtain ⟨m, _, describes⟩ := exists_of_mem_right each member
      -- The child is a record's own tree, moved below the accessor.
      obtain ⟨inner, below, _, found, rfl⟩ := (nested ▸ describes.nested).exists_of_some
      obtain ⟨a', leadsBelow, rfl⟩ := leads.exists_of_under
      rw [Accessor.reference_under, Accessor.kind_under, Accessor.nested_under]
      exact (ih found leadsBelow).under b.reference

/-- **Accessors are put together from those of bases and nested records.**  The accessors of a
record are those of its own parameters, in their order, followed by the accessors of its base.
Wherever in the tree the type of a parameter is a record, the accessors of that record stand below
it, each with its reference below that of the parameter. -/
theorem accessors_composition (h : s.accessors record = .ok g) :
    ∃ r, s.record? record = some r ∧
      (∃ own, List.Forall₂ s.Describes (parametersAmong r.members) own ∧
        (r.base = none → g.members = own) ∧
        ∀ base, r.base = some base → ∃ inherited, s.accessors base = .ok inherited ∧
          g.members = own ++ inherited.members) ∧
      ∀ way a inner, g.At way a → a.kind = .record inner →
        ∃ below, s.accessors inner = .ok below ∧ a.nested = some (below.under a.reference) := by
  obtain ⟨members, found, each⟩ := describes_of_accessors_eq_ok h
  obtain ⟨r, declared⟩ := exists_record?_of_membersOf_eq_ok found
  obtain ⟨last, next⟩ := membersOf_of_declared declared found
  refine ⟨r, declared, ?_, fun way a inner leads isRecord => ?_⟩
  · cases base : r.base with
    | none =>
      obtain rfl := last base
      exact ⟨g.members, each, fun _ => rfl, nofun⟩
    | some base' =>
      obtain ⟨inherited, foundBase, rfl⟩ := next base' base
      have inherits : s.Inherits record base' := ⟨r, declared, base⟩
      have consistent : s.Consistent record := by
        obtain ⟨distinct, made⟩ := accessors_eq_ok_iff.1 h
        exact consistent_of_group_eq_ok distinct made
      obtain ⟨below, made⟩ := (consistent.base inherits).exists_accessors
      obtain ⟨again, foundAgain, eachBelow⟩ := describes_of_accessors_eq_ok made
      obtain rfl := Except.ok.inj (foundBase.symm.trans foundAgain)
      rw [parametersAmong_append] at each
      obtain ⟨own, others, split, eachOwn, eachOther⟩ := exists_append_of_forall₂_append each
      refine ⟨own, eachOwn, nofun, fun _ same => ?_⟩
      cases same
      refine ⟨below, made, ?_⟩
      rw [split, (rightUnique_describes s).forall₂ eachOther eachBelow]
  · have nests := nests_of_at h leads
    rwa [isRecord] at nests

/-- A record with a base, and a third record that is the type of a parameter of each. -/
def regionSchema : Schema where
  records := [
    { name := "Deploy", base := some "Common", members := [
      { name := "Primary", parameterName := some "primary", kind := .record "Region" },
      { name := "EqualityContract", kind := .object, synthesized := true }] },
    { name := "Common", members := [{ name := "fallback", kind := .record "Region" }] },
    { name := "Region", members := [{ name := "name" }] }]

/-- The accessors of the third record. -/
def regionGroup : AccessorGroup := ⟨"Region", [⟨"name", .string, ⟨"name", by decide⟩, none⟩]⟩

/-- The accessors of the first record of `regionSchema`. -/
def deployGroup : AccessorGroup :=
  let primary : ParameterReference := ⟨"primary", by decide⟩
  let fallback : ParameterReference := ⟨"fallback", by decide⟩
  ⟨"Deploy", [
    ⟨"Primary", .record "Region", primary, some (regionGroup.under primary)⟩,
    ⟨"fallback", .record "Region", fallback, some (regionGroup.under fallback)⟩]⟩

theorem accessors_regionSchema : regionSchema.accessors "Deploy" = .ok deployGroup := by
  have region (reference : ParameterReference) :
      regionSchema.group (some reference) ["Deploy"] "Region" =
        .ok (regionGroup.under reference) := by
    have found : regionSchema.membersOf "Region" = .ok [{ name := "name" }] :=
      membersOf_eq_ok_iff.2 ⟨_, .last rfl rfl, by decide, rfl⟩
    exact group_eq_ok_iff.2 ⟨by decide, _, found, by decide, rfl,
      .cons ⟨rfl, rfl, memberReference_some_eq_ok_iff.2 rfl, rfl⟩ .nil⟩
  have nested (reference : ParameterReference) :
      regionSchema.nestedGroup reference ["Deploy"] (.record "Region") =
        .ok (some (regionGroup.under reference)) := by
    rw [nestedGroup, region]
    rfl
  have found : regionSchema.membersOf "Deploy" =
      .ok ((regionSchema.records.take 2).flatMap (·.members)) :=
    membersOf_eq_ok_iff.2 ⟨_, .next rfl rfl (.last rfl rfl), by decide, rfl⟩
  exact accessors_eq_ok_iff.2 ⟨by decide, group_eq_ok_iff.2 ⟨by decide, _, found, by decide, rfl,
    .cons ⟨rfl, rfl, memberReference_none_eq_ok_iff.2 rfl, nested _⟩
      (.cons ⟨rfl, rfl, memberReference_none_eq_ok_iff.2 rfl, nested _⟩ .nil)⟩⟩

/-- The record has its own accessor and that of its base, and below both stands the same group. -/
theorem accessors_composition_regions :
    regionSchema.accessors "Deploy" = .ok deployGroup ∧
      (∃ own common, regionSchema.accessors "Common" = .ok common ∧
        deployGroup.members = own ++ common.members ∧ own.map (·.member) = ["Primary"]) ∧
      ∃ region, regionSchema.accessors "Region" = .ok region ∧
        ∀ a ∈ deployGroup.members, a.nested = some (region.under a.reference) := by
  obtain ⟨r, declared, ⟨own, eachOwn, _, inherits⟩, nests⟩ :=
    accessors_composition accessors_regionSchema
  obtain rfl := Option.some.inj declared
  obtain ⟨common, madeCommon, split⟩ := inherits "Common" rfl
  refine ⟨accessors_regionSchema, ⟨own, common, madeCommon, split, ?_⟩, ?_⟩
  · cases eachOwn with
    | cons first rest =>
      cases rest
      rw [List.map_singleton, first.member]
  · obtain ⟨region, madeRegion, first⟩ := nests _ _ "Region" (.here List.mem_cons_self) rfl
    refine ⟨region, madeRegion, fun a member => ?_⟩
    have isRecord : a.kind = .record "Region" := by
      simp only [deployGroup, List.mem_cons, List.not_mem_nil, or_false] at member
      rcases member with rfl | rfl <;> rfl
    obtain ⟨again, madeAgain, below⟩ := nests _ a "Region" (.here member) isRecord
    obtain rfl := Except.ok.inj (madeRegion.symm.trans madeAgain)
    exact below

end Schema

end AzurePipelines
