import AzurePipelines.Proofs.Schema.Positions
import Mathlib

/-!
# Collisions of generated names

Names that are told apart in a schema may meet when code is generated: two members may become one
method, a member may become the method for the parameter that its group is below, and the names of
types, put together from all members on the way, may meet at positions far from each other.
`AccessorGroup.Collides` lists these three, each by the two things that meet.  Code is refused
exactly for them, and the fault names one (`AccessorGroup.exists_source_error_iff`).

The walk over a tree takes the name of a type at the accessor, before it comes to the group there.
So a fault is found while some names are taken whose positions are still ahead, and `Refuses` counts
them as `Declares` does.
-/

namespace AzurePipelines

/-! ## Names that meet -/

/-- Somewhere in the tree two things have the same name. -/
inductive AccessorGroup.Collides (g : AccessorGroup) : Prop where
  /-- Two members of one group have the same method. -/
  | members {p : Position} {i j : Nat} {a b : Accessor} : p ∈ g.positions → i ≠ j →
    p.group.members[i]? = some a → p.group.members[j]? = some b →
    Names.methodName a.member = Names.methodName b.member → Collides g
  /-- A member of a nested group has the method of the parameter that the group is below. -/
  | whole {p : Position} {a : Accessor} : p ∈ g.positions → p.parameter.isSome = true →
    a ∈ p.group.members → Names.methodName a.member = "reference" → Collides g
  /-- Two positions have the same type. -/
  | types {i j : Nat} {p q : Position} : i ≠ j → g.positions[i]? = some p →
    g.positions[j]? = some q → g.typeAt p.members = g.typeAt q.members → Collides g

/-- The fault names a member whose method, or a parameter whose type, has a name that is given
twice. -/
inductive AccessorGroup.Blames (g : AccessorGroup) : SchemaFault → Prop where
  | method {p : Position} {a : Accessor} : p ∈ g.positions → a ∈ p.group.members →
    2 ≤ p.methodNames.count (Names.methodName a.member) →
    g.Blames (.repeatedMethod a.member p.group.record (Names.methodName a.member))
  | type {p : Position} {r : ParameterReference} : p ∈ g.positions → p.parameter = some r →
    2 ≤ (g.positions.map fun q => g.typeAt q.members).count (g.typeAt p.members) →
    g.Blames (.repeatedStruct r.path (g.typeAt p.members))

/-- Not all values of a list differ where two of its places have the same. -/
theorem not_nodup_map_iff {α β : Type} {f : α → β} {xs : List α} :
    ¬(xs.map f).Nodup ↔ ∃ (i j : Nat) (a b : α), i ≠ j ∧ xs[i]? = some a ∧ xs[j]? = some b ∧
      f a = f b := by
  rw [List.nodup_iff_getElem?_ne_getElem?]
  push Not
  constructor
  · rintro ⟨i, j, before, inside, same⟩
    rw [List.length_map] at inside
    have first := List.getElem?_eq_getElem (before.trans inside)
    have second := List.getElem?_eq_getElem inside
    exact ⟨i, j, _, _, before.ne, first, second, by simpa [first, second] using same⟩
  · rintro ⟨i, j, a, b, other, first, second, same⟩
    wlog before : i < j generalizing i j a b
    · exact this j i b a other.symm second first same.symm (by omega)
    obtain ⟨inside, -⟩ := List.getElem?_eq_some_iff.1 second
    exact ⟨i, j, before, by simpa using inside, by simp [first, second, same]⟩

theorem Position.nodup_methodNames_iff (p : Position) :
    p.methodNames.Nodup ↔ (p.group.members.map fun a => Names.methodName a.member).Nodup ∧
      (p.parameter.isSome = true →
        ∀ a ∈ p.group.members, Names.methodName a.member ≠ "reference") := by
  unfold methodNames
  cases p.parameter with
  | none => simp
  | some r =>
    simp only [Option.toList_some, List.map_cons, List.map_nil, List.singleton_append,
      List.nodup_cons, List.mem_map, not_exists, not_and, Option.isSome_some, true_imp_iff]
    exact and_comm

/-- The names of a tree collide exactly where they do not differ. -/
theorem AccessorGroup.collides_iff {g : AccessorGroup} : g.Collides ↔ ¬g.NamesDiffer := by
  constructor
  · rintro (⟨mem, other, first, second, same⟩ | ⟨mem, below, member, same⟩ |
      ⟨other, first, second, same⟩) differ
    · have distinct := ((Position.nodup_methodNames_iff _).1 (differ.methods _ mem)).1
      refine not_nodup_map_iff.2 ?_ distinct
      exact ⟨_, _, _, _, other, first, second, same⟩
    · exact ((Position.nodup_methodNames_iff _).1 (differ.methods _ mem)).2 below _ member same
    · refine not_nodup_map_iff.2 ?_ differ.types
      exact ⟨_, _, _, _, other, first, second, same⟩
  · intro meet
    by_contra apart
    refine meet ⟨?_, fun p mem => p.nodup_methodNames_iff.2 ⟨?_, fun below a member same => ?_⟩⟩
    · by_contra equal
      obtain ⟨i, j, p, q, other, first, second, same⟩ := not_nodup_map_iff.1 equal
      exact apart (.types other first second same)
    · by_contra equal
      obtain ⟨i, j, a, b, other, first, second, same⟩ := not_nodup_map_iff.1 equal
      exact apart (.members mem other first second same)
    · exact apart (.whole mem below member same)

/-- Where a fault may be found, not all names differ. -/
theorem AccessorGroup.Blames.not_namesDiffer {g : AccessorGroup} {fault : SchemaFault}
    (blames : g.Blames fault) : ¬g.NamesDiffer := by
  intro differ
  cases blames with
  | @method p a mem _ twice =>
    have once := List.nodup_iff_count_le_one.1 (differ.methods p mem) (Names.methodName a.member)
    omega
  | @type p _ _ _ twice =>
    have once := List.nodup_iff_count_le_one.1 differ.types (g.typeAt p.members)
    omega

/-! ## Refused trees -/

/-- The names of nested groups are among those of the positions below. -/
theorem nestedStems_sublist (root : String) (way : List String) (members : List Accessor) :
    (nestedStems (stemAt root way) members).Sublist
      ((memberPositions way members).map fun p => stemAt root p.members) := by
  induction members with
  | nil => exact List.Sublist.slnil
  | cons a rest ih =>
    obtain ⟨member, kind, reference, nested⟩ := a
    cases nested with
    | none => simpa [nestedStems, memberPositions, accessorPositions, nestedPositions] using ih
    | some group =>
      rw [memberPositions, accessorPositions, nestedPositions, groupPositions_eq, List.map_append,
        List.map_cons, stemAt_append]
      exact (ih.trans (List.sublist_append_right _ _)).cons_cons _

theorem mem_memberPositions_of_nested (way : List String) {members : List Accessor} {a : Accessor}
    {child : AccessorGroup} (member : a ∈ members) (nested : a.nested = some child) :
    ⟨way ++ [a.member], some a.reference, child⟩ ∈ memberPositions way members := by
  rw [memberPositions_eq_flatMap]
  refine List.mem_flatMap.2 ⟨a, member, ?_⟩
  obtain ⟨name, kind, reference, below⟩ := a
  subst nested
  exact mem_groupPositions_self _ _ _

/-- A computation that fails did so in one of its steps. -/
theorem of_bind_eq_error {ε α β : Type} {first : Except ε α} {next : α → Except ε β} {e : ε}
    (h : first >>= next = .error e) :
    first = .error e ∨ ∃ a, first = .ok a ∧ next a = .error e := by
  cases first with
  | error e' =>
    obtain rfl := Except.error.inj h
    exact .inl rfl
  | ok a => exact .inr ⟨a, rfl, h⟩

/-- A member is refused for the name of its method, or for that of the type below it. -/
theorem memberMethods_eq_error {record stem : String} {members : List Accessor}
    {methods stems : List String} {fault : SchemaFault}
    (h : memberMethods record stem methods stems members = .error fault) :
    ∃ a ∈ members,
      2 ≤ (methods ++ members.map fun b => Names.methodName b.member).count
          (Names.methodName a.member) ∧
        fault = .repeatedMethod a.member record (Names.methodName a.member) ∨
      a.nested.isSome = true ∧
        2 ≤ (nestedStems stem members).count (stem ++ Names.pascalCase a.member) +
          stems.count (stem ++ Names.pascalCase a.member) ∧
        fault =
          .repeatedStruct a.reference.path (typeName (stem ++ Names.pascalCase a.member)) := by
  induction members generalizing methods stems with
  | nil => cases h
  | cons a rest ih =>
    -- The name of the method, which is in use for the members that follow, counts once.
    have methodsTotal (name : String) :
        ((Names.methodName a.member :: methods) ++
            rest.map fun b => Names.methodName b.member).count name =
          (methods ++ (a :: rest).map fun b => Names.methodName b.member).count name := by
      rw [List.map_cons]
      exact List.perm_middle.symm.count_eq name
    rw [memberMethods] at h
    split at h
    · -- The method has the name of one in use.
      rename_i used
      cases h
      refine ⟨a, List.mem_cons_self, .inl ⟨?_, rfl⟩⟩
      have before := List.count_pos_iff.2 used
      simp only [List.map_cons, List.count_append, List.count_cons_self]
      omega
    split at h
    · rename_i leaf
      rw [Option.isNone_iff_eq_none] at leaf
      obtain h | ⟨_, -, h⟩ := of_bind_eq_error h
      · obtain ⟨b, member, found⟩ := ih h
        refine ⟨b, List.mem_cons_of_mem a member, ?_⟩
        rw [← methodsTotal]
        simpa [nestedStems, leaf] using found
      · cases h
    rename_i nested
    have below : a.nested.isSome = true := by simpa [Option.isSome_iff_ne_none] using nested
    have stemsTotal (s : String) : (nestedStems stem (a :: rest)).count s =
        (nestedStems stem rest).count s + [stem ++ Names.pascalCase a.member].count s := by
      simp only [nestedStems, below, List.filter_cons, if_true, List.map_cons, List.count_cons,
        List.count_nil]
      omega
    split at h
    · -- The type has the name of one in use.
      rename_i used
      cases h
      refine ⟨a, List.mem_cons_self, .inr ⟨below, ?_, rfl⟩⟩
      have before := List.count_pos_iff.2 used
      rw [stemsTotal, List.count_singleton_self]
      omega
    obtain h | ⟨_, -, h⟩ := of_bind_eq_error h
    · obtain ⟨b, member, found⟩ := ih h
      refine ⟨b, List.mem_cons_of_mem a member, ?_⟩
      rw [← methodsTotal, stemsTotal]
      refine found.imp_right fun later => ⟨later.1, ?_, later.2.2⟩
      have twice := later.2.1
      rw [List.count_cons] at twice
      rw [List.count_singleton]
      omega
    · cases h

/-- Why a walk over some positions is refused, where `stems` are in use before it and `named` holds
the names among them that were taken for these positions. -/
inductive Refuses (root : String) (positions : List Position) (named stems : List String) :
    SchemaFault → Prop where
  | method {p : Position} {a : Accessor} : p ∈ positions → a ∈ p.group.members →
    2 ≤ p.methodNames.count (Names.methodName a.member) →
    Refuses root positions named stems
      (.repeatedMethod a.member p.group.record (Names.methodName a.member))
  | type {p : Position} {r : ParameterReference} : p ∈ positions → p.parameter = some r →
    named.count (stemAt root p.members) + 2 ≤
      (positions.map fun q => stemAt root q.members).count (stemAt root p.members) +
        stems.count (stemAt root p.members) →
    Refuses root positions named stems (.repeatedStruct r.path (typeName (stemAt root p.members)))

/-- The walk over some of the positions is refused for what the walk over all of them is refused
for, if no name counts less there. -/
theorem Refuses.mono {root : String} {positions more : List Position}
    {named named' stems stems' : List String} {fault : SchemaFault}
    (refused : Refuses root positions named stems fault) (subset : positions ⊆ more)
    (counts : ∀ s, named'.count s + (positions.map fun p => stemAt root p.members).count s +
        stems.count s ≤
      named.count s + (more.map fun p => stemAt root p.members).count s + stems'.count s) :
    Refuses root more named' stems' fault := by
  cases refused with
  | method mem member twice => exact .method (subset mem) member twice
  | @type p r mem below twice =>
    have total := counts (stemAt root p.members)
    exact .type (subset mem) below (by omega)

mutual

theorem groupTypes_eq_error {root : String} {way : List String}
    (parameter : Option ParameterReference) {stems : List String} {fault : SchemaFault} :
    ∀ {g : AccessorGroup},
      groupTypes (stemAt root way) (parameter.map (·.path)) stems g = .error fault →
        Refuses root (groupPositions way parameter g) [stemAt root way] stems fault
  | ⟨record, members⟩, h => by
    have own : (parameter.map (·.path)).toList.map Method.whole =
        parameter.toList.map fun r => Method.whole r.path := by cases parameter <;> rfl
    rw [groupTypes, own, List.map_map] at h
    rw [groupPositions]
    obtain h | ⟨⟨methods, between⟩, read, h⟩ := of_bind_eq_error h
    · obtain ⟨a, member, ⟨twice, rfl⟩ | ⟨below, twice, rfl⟩⟩ := memberMethods_eq_error h
      · exact .method List.mem_cons_self member twice
      obtain ⟨child, below⟩ := Option.isSome_iff_exists.1 below
      have position := mem_memberPositions_of_nested way member below
      have taken :=
        (nestedStems_sublist root way members).count_le (stemAt root (way ++ [a.member]))
      rw [← stemAt_append] at twice ⊢
      refine .type (List.mem_cons_of_mem _ position) rfl ?_
      simp only [List.map_cons, List.count_cons, List.count_nil]
      omega
    · obtain ⟨-, -, -, counts⟩ := memberMethods_eq_ok read
      obtain h | ⟨_, -, h⟩ := of_bind_eq_error h
      · refine (memberTypes_eq_error h).mono (List.subset_cons_self _ _) fun s => ?_
        have total := counts s
        simp only [List.map_cons, List.count_cons, List.count_nil]
        omega
      · cases h

theorem memberTypes_eq_error {root : String} {way : List String} {stems : List String}
    {fault : SchemaFault} : ∀ {members : List Accessor},
      memberTypes (stemAt root way) stems members = .error fault →
        Refuses root (memberPositions way members) (nestedStems (stemAt root way) members) stems
          fault
  | [], h => by cases h
  | accessor :: rest, h => by
    have split : nestedStems (stemAt root way) (accessor :: rest) =
        nestedStems (stemAt root way) [accessor] ++ nestedStems (stemAt root way) rest := by
      simp only [nestedStems, ← List.map_append, ← List.filter_append, List.singleton_append]
    rw [memberTypes] at h
    rw [memberPositions, split]
    obtain h | ⟨⟨here, between⟩, first, h⟩ := of_bind_eq_error h
    · refine (accessorTypes_eq_error h).mono (List.subset_append_left _ _) fun s => ?_
      have taken := (nestedStems_sublist root way rest).count_le s
      simp only [List.map_append, List.count_append]
      omega
    obtain h | ⟨_, -, h⟩ := of_bind_eq_error h
    · refine (memberTypes_eq_error h).mono (List.subset_append_right _ _) fun s => ?_
      have total := (accessorTypes_eq_ok first).count s
      simp only [List.map_append, List.count_append]
      omega
    · cases h

theorem accessorTypes_eq_error {root : String} {way : List String} {stems : List String}
    {fault : SchemaFault} : ∀ {accessor : Accessor},
      accessorTypes (stemAt root way) stems accessor = .error fault →
        Refuses root (accessorPositions way accessor)
          (nestedStems (stemAt root way) [accessor]) stems fault
  | ⟨_, _, _, none⟩, h => by cases h
  | ⟨member, kind, reference, some group⟩, h => by
    rw [accessorTypes, nestedTypes, ← stemAt_append] at h
    rw [accessorPositions, nestedPositions]
    have named : nestedStems (stemAt root way) [⟨member, kind, reference, some group⟩] =
        [stemAt root (way ++ [member])] := by
      rw [stemAt_append]
      rfl
    rw [named]
    exact groupTypes_eq_error (some reference) h

end

/-! ## Refused code -/

namespace AccessorGroup

theorem source_eq_error_iff {g : AccessorGroup} {fault : SchemaFault} :
    g.source = .error fault ↔ g.declarations = .error fault := by
  unfold source
  cases g.declarations with
  | error e => simp [bind, Except.bind]
  | ok types => exact iff_of_false nofun nofun

/-- The fault of refused code names a collision. -/
theorem blames_of_source_eq_error {g : AccessorGroup} {fault : SchemaFault}
    (h : g.source = .error fault) : g.Blames fault := by
  rw [source_eq_error_iff, declarations, ← stemAt_nil] at h
  cases read : groupTypes (stemAt g.record []) none [stemAt g.record []] g with
  | ok result => simp [read, Except.map] at h
  | error e =>
    simp only [read, Except.map, Except.error.injEq] at h
    subst h
    cases groupTypes_eq_error none read with
    | method mem member twice => exact .method mem member twice
    | @type p r mem below twice =>
      refine .type mem below ?_
      -- The name of the root's type is in use from the start.
      have same := List.count_map_of_injective (g.positions.map fun q => stemAt g.record q.members)
        typeName (fun _ _ => typeName_injective) (stemAt g.record p.members)
      rw [List.map_map] at same
      refine le_of_le_of_eq ?_ same.symm
      unfold positions
      omega

/-- Code is generated exactly where all names differ. -/
theorem exists_source_iff {g : AccessorGroup} :
    (∃ source, g.source = .ok source) ↔ g.NamesDiffer := by
  constructor
  · rintro ⟨source, made⟩
    obtain ⟨_, declared, -⟩ := exists_of_bind_eq_ok made
    exact (declarations_eq_ok declared).2
  · intro differ
    cases made : g.source with
    | ok source => exact ⟨source, rfl⟩
    | error fault => exact absurd differ (blames_of_source_eq_error made).not_namesDiffer

/-- Code is refused exactly for the names that collide, and the fault names one of them. -/
theorem exists_source_error_iff (g : AccessorGroup) :
    ((∃ fault, g.source = .error fault) ↔ g.Collides) ∧
      ∀ fault, g.source = .error fault → g.Blames fault := by
  refine ⟨?_, fun _ => blames_of_source_eq_error⟩
  rw [collides_iff, ← exists_source_iff]
  cases g.source <;> simp

/-- The type below `a` and `b` has the name of the type below `aB`. -/
def crossingTypes : AccessorGroup :=
  ⟨"Root",
    [⟨"a", .record "A", ⟨"a", by decide⟩, some ⟨"A",
        [⟨"b", .record "Leaf", ⟨"a.b", by decide⟩, some ⟨"Leaf", []⟩⟩]⟩⟩,
      ⟨"aB", .record "Leaf", ⟨"aB", by decide⟩, some ⟨"Leaf", []⟩⟩]⟩

theorem exists_source_error_crossingTypes : ∃ fault, crossingTypes.source = .error fault ∧
    fault = .repeatedStruct "a.b" "RootABReference" ∧ crossingTypes.Collides ∧
      crossingTypes.Blames fault := by
  have refused : crossingTypes.source = .error (.repeatedStruct "a.b" "RootABReference") := by rfl
  obtain ⟨exact, names⟩ := exists_source_error_iff crossingTypes
  exact ⟨_, refused, rfl, exact.1 ⟨_, refused⟩, names _ refused⟩

end AccessorGroup

end AzurePipelines
