import AzurePipelines.Schema.Source
import Mathlib

/-!
# Positions of groups

A tree of accessors holds one group at its root and one below each parameter whose type is a record.
`AccessorGroup.positions` lists them depth first, each before those below it, with the members that
lead to it (`AccessorGroup.mem_positions_iff`); the same record may stand at many positions.

If no name is refused, the generated code has one type for each position, in this order, under a
name that is made of the members on the way to it, with one method for each accessor that stands
there and one for the parameter that the group is below.  No two types have the same name, and no
two methods of a type (`AccessorGroup.declarations_eq_ok`).
-/

namespace AzurePipelines

/-! ## Positions -/

/-- A group of a tree of accessors, and where it stands. -/
structure Position where
  /-- The names of the members on the way to the group, those of its own accessors excepted. -/
  members : List String
  /-- The parameter that the group is below; the root is below none. -/
  parameter : Option ParameterReference
  group : AccessorGroup

mutual

/-- The positions of a group that stands below a parameter, and of all groups below it. -/
def groupPositions (way : List String) (parameter : Option ParameterReference) :
    AccessorGroup → List Position
  | ⟨record, members⟩ => ⟨way, parameter, ⟨record, members⟩⟩ :: memberPositions way members

def memberPositions (way : List String) : List Accessor → List Position
  | [] => []
  | accessor :: rest => accessorPositions way accessor ++ memberPositions way rest

def accessorPositions (way : List String) : Accessor → List Position
  | ⟨member, _, reference, nested⟩ => nestedPositions (way ++ [member]) reference nested

def nestedPositions (way : List String) (parameter : ParameterReference) :
    Option AccessorGroup → List Position
  | none => []
  | some group => groupPositions way (some parameter) group

end

/-- The positions of a tree of accessors, depth first and each before those below it. -/
def AccessorGroup.positions (g : AccessorGroup) : List Position := groupPositions [] none g

/-- The accessor stands in the tree where the members lead, the last of which is its own. -/
inductive AccessorGroup.At : AccessorGroup → List String → Accessor → Prop where
  | here {g : AccessorGroup} {a : Accessor} : a ∈ g.members → g.At [a.member] a
  | inside {g child : AccessorGroup} {a b : Accessor} {members : List String} :
    a ∈ g.members → a.nested = some child → child.At members b → g.At (a.member :: members) b

theorem AccessorGroup.At.ne_nil {g : AccessorGroup} {members : List String} {a : Accessor}
    (leads : g.At members a) : members ≠ [] := by
  cases leads <;> exact List.cons_ne_nil _ _

theorem AccessorGroup.At.mono {g other : AccessorGroup} {members : List String} {a : Accessor}
    (leads : g.At members a) (more : g.members ⊆ other.members) : other.At members a := by
  cases leads with
  | here member => exact .here (more member)
  | inside member nested below => exact .inside (more member) nested below

/-- From an accessor with a group, one more member leads on. -/
theorem AccessorGroup.At.append {g child : AccessorGroup} {members : List String} {a b : Accessor}
    (leads : g.At members a) (nested : a.nested = some child) (member : b ∈ child.members) :
    g.At (members ++ [b.member]) b := by
  induction leads with
  | here inGroup => exact .inside inGroup nested (.here member)
  | inside inGroup inner _ ih => exact .inside inGroup inner (ih nested)

/-! ### Positions of nested groups -/

theorem memberPositions_eq_flatMap (way : List String) (members : List Accessor) :
    memberPositions way members = members.flatMap (accessorPositions way) := by
  induction members with
  | nil => rfl
  | cons accessor rest ih => rw [memberPositions, ih, List.flatMap_cons]

theorem groupPositions_eq (way : List String) (parameter : Option ParameterReference)
    (g : AccessorGroup) :
    groupPositions way parameter g = ⟨way, parameter, g⟩ :: memberPositions way g.members := by
  obtain ⟨record, members⟩ := g
  rfl

theorem mem_groupPositions_self (way : List String) (parameter : Option ParameterReference)
    (g : AccessorGroup) : ⟨way, parameter, g⟩ ∈ groupPositions way parameter g := by
  rw [groupPositions_eq]
  exact List.mem_cons_self

/-- The positions of a nested group are positions below the accessor. -/
theorem groupPositions_subset {way : List String} {parameter : Option ParameterReference}
    {g child : AccessorGroup} {a : Accessor} (member : a ∈ g.members)
    (nested : a.nested = some child) :
    groupPositions (way ++ [a.member]) (some a.reference) child ⊆
      groupPositions way parameter g := by
  intro p inChild
  rw [groupPositions_eq way parameter g, memberPositions_eq_flatMap]
  refine List.mem_cons_of_mem _ (List.mem_flatMap.2 ⟨a, member, ?_⟩)
  obtain ⟨name, kind, reference, below⟩ := a
  subst nested
  exact inChild

theorem mem_groupPositions_of_at {way members : List String}
    {parameter : Option ParameterReference} {g child : AccessorGroup} {a : Accessor}
    (leads : g.At members a) (nested : a.nested = some child) :
    ⟨way ++ members, some a.reference, child⟩ ∈ groupPositions way parameter g := by
  induction leads generalizing way parameter with
  | here member => exact groupPositions_subset member nested (mem_groupPositions_self _ _ _)
  | @inside g inner a b members member below _ ih =>
    apply groupPositions_subset member below
    have rest := @ih (way ++ [a.member]) (some a.reference) nested
    rwa [List.append_assoc, List.singleton_append] at rest

mutual

theorem exists_at_of_mem_groupPositions {way : List String} {p : Position} :
    ∀ {parameter : Option ParameterReference} {g : AccessorGroup},
      p ∈ groupPositions way parameter g →
        p = ⟨way, parameter, g⟩ ∨ ∃ members a child, g.At members a ∧ a.nested = some child ∧
          p = ⟨way ++ members, some a.reference, child⟩
  | _, ⟨record, members⟩, mem => by
    rw [groupPositions] at mem
    exact (List.mem_cons.1 mem).imp_right (exists_at_of_mem_memberPositions record)

theorem exists_at_of_mem_memberPositions {way : List String} {p : Position} (record : String) :
    ∀ {accessors : List Accessor}, p ∈ memberPositions way accessors →
      ∃ members a child, (⟨record, accessors⟩ : AccessorGroup).At members a ∧
        a.nested = some child ∧ p = ⟨way ++ members, some a.reference, child⟩
  | [], mem => by cases mem
  | accessor :: rest, mem => by
    rw [memberPositions] at mem
    rcases List.mem_append.1 mem with here | later
    · obtain ⟨members, a, child, leads, found⟩ := exists_at_of_mem_accessorPositions record here
      exact ⟨members, a, child, leads.mono (by simp), found⟩
    · obtain ⟨members, a, child, leads, found⟩ := exists_at_of_mem_memberPositions record later
      exact ⟨members, a, child, leads.mono (List.subset_cons_self accessor rest), found⟩

theorem exists_at_of_mem_accessorPositions {way : List String} {p : Position} (record : String) :
    ∀ {accessor : Accessor}, p ∈ accessorPositions way accessor →
      ∃ members a child, (⟨record, [accessor]⟩ : AccessorGroup).At members a ∧
        a.nested = some child ∧ p = ⟨way ++ members, some a.reference, child⟩
  | ⟨_, _, _, none⟩, mem => by cases mem
  | ⟨member, kind, reference, some group⟩, mem => by
    rw [accessorPositions, nestedPositions] at mem
    rcases exists_at_of_mem_groupPositions mem with rfl | ⟨members, a, child, leads, nested, rfl⟩
    · exact ⟨_, ⟨member, kind, reference, some group⟩, group, .here List.mem_cons_self, rfl, rfl⟩
    · have first : (⟨member, kind, reference, some group⟩ : Accessor) ∈
          [⟨member, kind, reference, some group⟩] := List.mem_cons_self
      refine ⟨_, a, child, .inside first rfl leads, nested, ?_⟩
      rw [List.append_assoc, List.singleton_append]

end

/-- The positions are the root, and wherever members lead to an accessor with a group. -/
theorem AccessorGroup.mem_positions_iff {g : AccessorGroup} {p : Position} :
    p ∈ g.positions ↔ p = ⟨[], none, g⟩ ∨ ∃ members a child, g.At members a ∧
      a.nested = some child ∧ p = ⟨members, some a.reference, child⟩ := by
  refine ⟨exists_at_of_mem_groupPositions, ?_⟩
  rintro (rfl | ⟨members, a, child, leads, nested, rfl⟩)
  · exact mem_groupPositions_self [] none g
  · exact mem_groupPositions_of_at leads nested

/-- From the root, the members on the way to a position and one of its own lead to an accessor. -/
theorem AccessorGroup.at_of_mem_positions {g : AccessorGroup} {p : Position} {a : Accessor}
    (mem : p ∈ g.positions) (member : a ∈ p.group.members) : g.At (p.members ++ [a.member]) a := by
  rcases mem_positions_iff.1 mem with rfl | ⟨members, b, group, leads, inner, rfl⟩
  · exact .here member
  · exact leads.append inner member

/-- A group that is nested at a position has a position too. -/
theorem AccessorGroup.mem_positions_of_nested {g child : AccessorGroup} {p : Position}
    {a : Accessor} (mem : p ∈ g.positions) (member : a ∈ p.group.members)
    (nested : a.nested = some child) :
    ⟨p.members ++ [a.member], some a.reference, child⟩ ∈ g.positions :=
  mem_positions_iff.2 (.inr ⟨_, a, child, at_of_mem_positions mem member, nested, rfl⟩)

/-! ## Names of types and methods -/

/-- The name of the type at a position up to its ending: the names of the root record and of the
members on the way, put together. -/
def stemAt (root : String) (members : List String) : String :=
  String.join ((root :: members).map Names.pascalCase)

theorem stemAt_nil (root : String) : stemAt root [] = Names.pascalCase root := by
  simp [stemAt, String.join]

theorem stemAt_append (root : String) (members : List String) (member : String) :
    stemAt root (members ++ [member]) = stemAt root members ++ Names.pascalCase member := by
  simp [stemAt, String.join]

/-- The name of the type where the members lead from a root. -/
def AccessorGroup.typeAt (g : AccessorGroup) (members : List String) : String :=
  typeName (stemAt g.record members)

theorem typeName_injective {one other : String} (same : typeName one = typeName other) :
    one = other := by
  unfold typeName at same
  exact String.append_left_inj _ |>.1 same

/-- The method for an accessor of the type with this stem. -/
def memberMethod (stem : String) (a : Accessor) : Method :=
  match a.nested with
  | none => .leaf (Names.methodName a.member) a.reference.path
  | some _ =>
    .child (Names.methodName a.member) a.reference.path
      (typeName (stem ++ Names.pascalCase a.member))

/-- The type at a position below a root record. -/
def Position.declaration (root : String) (p : Position) : TypeDeclaration :=
  ⟨p.group.record, typeName (stemAt root p.members),
    (p.parameter.toList.map fun r => Method.whole r.path) ++
      p.group.members.map (memberMethod (stemAt root p.members))⟩

/-- The names of the methods of the type at a position. -/
def Position.methodNames (p : Position) : List String :=
  p.parameter.toList.map (fun _ => "reference") ++
    p.group.members.map fun a => Names.methodName a.member

/-- No name is given to two types, and none to two methods of one type. -/
structure AccessorGroup.NamesDiffer (g : AccessorGroup) : Prop where
  types : (g.positions.map fun p => g.typeAt p.members).Nodup
  methods : ∀ p ∈ g.positions, p.methodNames.Nodup

/-- The stems of the types of the groups that are nested in accessors of this stem. -/
def nestedStems (stem : String) (members : List Accessor) : List String :=
  (members.filter (·.nested.isSome)).map fun a => stem ++ Names.pascalCase a.member

/-! ## Declared types -/

/-- A computation that gives a result gave one in each of its steps. -/
theorem exists_of_bind_eq_ok {ε α β : Type} {first : Except ε α} {next : α → Except ε β} {b : β}
    (h : first >>= next = .ok b) : ∃ a, first = .ok a ∧ next a = .ok b := by
  cases first with
  | error e => cases h
  | ok a => exact ⟨a, rfl, h⟩

/-- The methods for members have names of their own, apart from those in use, and so have the types
that they give. -/
theorem memberMethods_eq_ok {record stem : String} {members : List Accessor}
    {methods stems after : List String} {result : List Method}
    (h : memberMethods record stem methods stems members = .ok (result, after)) :
    result = members.map (memberMethod stem) ∧
      (methods.Nodup → (methods ++ members.map fun a => Names.methodName a.member).Nodup) ∧
      (stems.Nodup → after.Nodup) ∧
      ∀ s, after.count s = (nestedStems stem members).count s + stems.count s := by
  induction members generalizing methods stems result with
  | nil =>
    cases h
    exact ⟨rfl, by simp, id, by simp [nestedStems]⟩
  | cons a rest ih =>
    rw [memberMethods] at h
    split at h
    · cases h
    rename_i newName
    split at h
    · -- No group is nested in the accessor.
      rename_i leaf
      obtain ⟨⟨others, left⟩, read, h⟩ := exists_of_bind_eq_ok h
      cases h
      obtain ⟨rfl, names, types, counts⟩ := ih read
      rw [Option.isNone_iff_eq_none] at leaf
      refine ⟨by simp [memberMethod, leaf], fun unique => ?_, types, ?_⟩
      · rw [List.map_cons, List.nodup_middle]
        exact names (List.nodup_cons.2 ⟨newName, unique⟩)
      · simpa [nestedStems, leaf] using counts
    rename_i nested
    split at h
    · cases h
    -- The type of the nested group takes a name of its own before the accessors that follow.
    rename_i newType
    obtain ⟨⟨others, left⟩, read, h⟩ := exists_of_bind_eq_ok h
    cases h
    obtain ⟨rfl, names, types, counts⟩ := ih read
    obtain ⟨child, below⟩ := Option.ne_none_iff_exists'.1 (mt Option.isNone_iff_eq_none.2 nested)
    refine ⟨by simp [memberMethod, below], fun unique => ?_, fun unique => ?_, fun s => ?_⟩
    · rw [List.map_cons, List.nodup_middle]
      exact names (List.nodup_cons.2 ⟨newName, unique⟩)
    · exact types (List.nodup_cons.2 ⟨newType, unique⟩)
    · rw [counts s]
      simp only [nestedStems, below, List.filter_cons, Option.isSome_some, if_true, List.map_cons,
        List.count_cons]
      omega

/-- What the types of some positions are, where the names in use before and after are known, and
`named` holds the names that were in use for some of them already. -/
structure Declares (root : String) (positions : List Position) (named stems : List String)
    (types : List TypeDeclaration) (after : List String) : Prop where
  types_eq : types = positions.map (·.declaration root)
  nodup_names : ∀ p ∈ positions, p.methodNames.Nodup
  nodup : stems.Nodup → after.Nodup
  count : ∀ s, named.count s + after.count s =
    (positions.map fun p => stemAt root p.members).count s + stems.count s

-- The name of a group's type is in use before the group is reached, as its accessor has taken it,
-- so that each position counts once: the names of nested groups stand on the left of the equation
-- until the walk comes to them.

mutual

theorem groupTypes_eq_ok {root : String} {way : List String}
    (parameter : Option ParameterReference) {stems after : List String}
    {types : List TypeDeclaration} : ∀ {g : AccessorGroup},
    groupTypes (stemAt root way) (parameter.map (·.path)) stems g = .ok (types, after) →
      Declares root (groupPositions way parameter g) [stemAt root way] stems types after
  | ⟨record, members⟩, h => by
    have own : (parameter.map (·.path)).toList.map Method.whole =
        parameter.toList.map fun r => Method.whole r.path := by cases parameter <;> rfl
    rw [groupTypes, own] at h
    obtain ⟨⟨methods, between⟩, read, h⟩ := exists_of_bind_eq_ok h
    obtain ⟨⟨below, last⟩, declared, h⟩ := exists_of_bind_eq_ok h
    cases h
    obtain ⟨rfl, names, unique, counts⟩ := memberMethods_eq_ok read
    have rest := memberTypes_eq_ok declared
    rw [groupPositions]
    refine ⟨?_, ?_, fun before => rest.nodup (unique before), fun s => ?_⟩
    · rw [List.map_cons, ← rest.types_eq]
      rfl
    · intro p here
      rcases List.mem_cons.1 here with rfl | below
      · refine (congrArg List.Nodup ?_).mp (names ?_)
        · simp [Position.methodNames, Function.comp_def]
        · cases parameter <;> simp
      · exact rest.nodup_names p below
    · have total := rest.count s
      rw [counts s] at total
      simp only [List.map_cons, List.count_cons, List.count_nil]
      omega

theorem memberTypes_eq_ok {root : String} {way : List String} {stems after : List String}
    {types : List TypeDeclaration} : ∀ {members : List Accessor},
    memberTypes (stemAt root way) stems members = .ok (types, after) →
      Declares root (memberPositions way members) (nestedStems (stemAt root way) members)
        stems types after
  | [], h => by
    cases h
    exact ⟨rfl, by simp [memberPositions], id, by simp [memberPositions, nestedStems]⟩
  | accessor :: rest, h => by
    rw [memberTypes] at h
    obtain ⟨⟨here, between⟩, first, h⟩ := exists_of_bind_eq_ok h
    obtain ⟨⟨others, last⟩, read, h⟩ := exists_of_bind_eq_ok h
    cases h
    have head := accessorTypes_eq_ok first
    have tail := memberTypes_eq_ok read
    rw [memberPositions]
    refine ⟨?_, ?_, fun before => tail.nodup (head.nodup before), fun s => ?_⟩
    · rw [List.map_append, ← head.types_eq, ← tail.types_eq]
    · intro p inAny
      rcases List.mem_append.1 inAny with inHead | inTail
      · exact head.nodup_names p inHead
      · exact tail.nodup_names p inTail
    · have headTotal := head.count s
      have tailTotal := tail.count s
      have split : nestedStems (stemAt root way) (accessor :: rest) =
          nestedStems (stemAt root way) [accessor] ++ nestedStems (stemAt root way) rest := by
        simp only [nestedStems, ← List.map_append, ← List.filter_append, List.singleton_append]
      rw [split, List.count_append, List.map_append, List.count_append]
      omega

theorem accessorTypes_eq_ok {root : String} {way : List String} {stems after : List String}
    {types : List TypeDeclaration} : ∀ {accessor : Accessor},
    accessorTypes (stemAt root way) stems accessor = .ok (types, after) →
      Declares root (accessorPositions way accessor)
        (nestedStems (stemAt root way) [accessor]) stems types after
  | ⟨member, kind, reference, none⟩, h => by
    cases h
    exact ⟨rfl, by simp [accessorPositions, nestedPositions], id,
      by simp [accessorPositions, nestedPositions, nestedStems]⟩
  | ⟨member, kind, reference, some group⟩, h => by
    rw [accessorTypes, nestedTypes, ← stemAt_append] at h
    have below := groupTypes_eq_ok (some reference) h
    rw [accessorPositions, nestedPositions]
    refine ⟨below.types_eq, below.nodup_names, below.nodup, fun s => ?_⟩
    rw [← below.count s, stemAt_append]
    rfl

end

/-- The types that are declared are those at the positions, in their order, and their names and
those of their methods differ. -/
theorem AccessorGroup.declarations_eq_ok {g : AccessorGroup} {types : List TypeDeclaration}
    (h : g.declarations = .ok types) :
    types = g.positions.map (·.declaration g.record) ∧ g.NamesDiffer := by
  unfold declarations at h
  rw [← stemAt_nil] at h
  cases read : groupTypes (stemAt g.record []) none [stemAt g.record []] g with
  | error fault => simp [read, Except.map] at h
  | ok result =>
    obtain ⟨_, after⟩ := result
    simp only [read, Except.map, Except.ok.injEq] at h
    subst h
    have declares := groupTypes_eq_ok none read
    refine ⟨declares.types_eq, ?_, declares.nodup_names⟩
    -- The names in use at the end are those of the types, and no name was taken twice.
    have same : after.Perm (g.positions.map fun p => stemAt g.record p.members) := by
      rw [List.perm_iff_count]
      intro s
      have total := declares.count s
      unfold positions
      omega
    have distinct := (same.nodup (declares.nodup (List.nodup_singleton _))).map
      (fun _ _ => typeName_injective)
    rwa [List.map_map] at distinct

end AzurePipelines
