import AzurePipelines.OrderedMap
import AzurePipelines.Proofs.Schema.SourceText
import Mathlib

/-!
# Calls of generated code

`Code.calls` runs what is read of generated code: from a value of a type it calls one method after
the other.  `Code.Serves` says when code gives the parameters of a tree of accessors and nothing
else: it declares one type for each position, calling the methods of the members on the way from the
root reaches the accessor that stands there, and no other calls give anything.

The source that is generated serves its tree if no record has a line feed in its name
(`AccessorGroup.serves_source`).  A line feed ends the comment that the name stands in, and what
follows it is code (`AccessorGroup.not_serves_source_brokenRecord`).
-/

namespace AzurePipelines

namespace Code

/-! ## Calls -/

/-- The types without data that are declared. -/
def structsOf (items : List Item) : List String :=
  items.filterMap fun
    | .struct name => some name
    | _ => none

/-- The methods that are declared, each under its type and its name. -/
def methodsOf (items : List Item) : List ((String × String) × MethodItem) :=
  items.flatMap fun
    | .methods type methods => methods.map fun m => ((type, m.name), m)
    | _ => []

/-- The type of what a method gives. -/
def Result.type : Result → String
  | .reference _ => "ParameterReference"
  | .value type => type

/-- What a method of the type gives; it must be of the type that the method is declared with. -/
def call (items : List Item) (type name : String) : Option Result :=
  ((methodsOf items).lookup (type, name)).bind fun m =>
    if m.result.type = m.type then some m.result else none

/-- What the last one of the methods gives, where the first is called on a value of the type, and
each other one on what the one before gave.  No generated method can be called on a reference. -/
def calls (items : List Item) (type : String) : List String → Option Result
  | [] => some (.value type)
  | name :: names =>
    match call items type name with
    | none => none
    | some (.value next) => calls items next names
    | some (.reference path) => if names = [] then some (.reference path) else none

/-- The items give the parameters of a tree of accessors and nothing else. -/
structure Serves (items : List Item) (g : AccessorGroup) : Prop where
  /-- Each position has one type, depth first, named for the members on the way to it. -/
  structs : structsOf items = g.positions.map fun p => g.typeAt p.members
  distinct_structs : (structsOf items).Nodup
  /-- The types have methods for the accessors at their positions and for their own parameters. -/
  methods : (methodsOf items).map Prod.fst =
    g.positions.flatMap fun p => p.methodNames.map fun name => (g.typeAt p.members, name)
  distinct_methods : ((methodsOf items).map Prod.fst).Nodup
  /-- The members that lead to an accessor without a group lead to its parameter. -/
  leaf : ∀ members a, g.At members a → a.nested = none →
    calls items (g.typeAt []) (members.map Names.methodName) = some (.reference a.reference.path)
  /-- The members that lead to an accessor with a group lead to the type at its position. -/
  nested : ∀ members a, g.At members a → a.nested.isSome = true →
    calls items (g.typeAt []) (members.map Names.methodName) = some (.value (g.typeAt members))
  /-- The type at the position of a group gives the parameter that the group is below. -/
  whole : ∀ members a, g.At members a → a.nested.isSome = true →
    call items (g.typeAt members) "reference" = some (.reference a.reference.path)
  /-- No two accessors are reached by the same calls. -/
  unique : ∀ members others a b, g.At members a → g.At others b →
    members.map Names.methodName = others.map Names.methodName → members = others ∧ a = b
  /-- Nothing else can be called. -/
  only : ∀ names result, calls items (g.typeAt []) names = some result →
    names = [] ∨ ∃ members a, g.At members a ∧ (names = members.map Names.methodName ∨
      a.nested.isSome = true ∧ names = members.map Names.methodName ++ ["reference"])

end Code

open Code

/-! ## Methods at positions -/

theorem Method.type_result_item (m : Method) : m.item.result.type = m.item.type := by
  cases m <;> rfl

theorem name_item_memberMethod (stem : String) (a : Accessor) :
    (memberMethod stem a).item.name = Names.methodName a.member := by
  unfold memberMethod
  split <;> simp only [Method.item]

theorem Position.map_name_item (root : String) (p : Position) :
    (p.declaration root).methods.map (·.item.name) = p.methodNames := by
  rw [declaration, methodNames, List.map_append, List.map_map, List.map_map]
  refine congrArg₂ (· ++ ·) rfl (List.map_congr_left fun a _ => ?_)
  exact name_item_memberMethod _ a

namespace AccessorGroup

theorem structsOf_items (g : AccessorGroup) :
    structsOf g.items = g.positions.map fun p => g.typeAt p.members := by
  simp [items, structsOf, List.filterMap_flatMap, TypeDeclaration.items, Position.declaration,
    typeAt, List.map_eq_flatMap]

theorem methodsOf_items (g : AccessorGroup) :
    methodsOf g.items = g.positions.flatMap fun p => (p.declaration g.record).methods.map fun m =>
      ((g.typeAt p.members, m.item.name), m.item) := by
  simp [items, methodsOf, List.flatMap_assoc, TypeDeclaration.items, Position.declaration,
    Function.comp_def, typeAt]

theorem map_fst_methodsOf_items (g : AccessorGroup) :
    (methodsOf g.items).map Prod.fst =
      g.positions.flatMap fun p => p.methodNames.map fun name => (g.typeAt p.members, name) := by
  rw [methodsOf_items, List.map_flatMap]
  refine List.flatMap_congr fun p _ => ?_
  rw [← p.map_name_item g.record, List.map_map, List.map_map]
  rfl

section NamesDiffer

variable {g : AccessorGroup} (differ : g.NamesDiffer)
include differ

theorem nodup_methodsOf_items : ((methodsOf g.items).map Prod.fst).Nodup := by
  rw [map_fst_methodsOf_items, List.nodup_flatMap]
  constructor
  · intro p mem
    exact (differ.methods p mem).map fun _ _ same => (Prod.mk.inj same).2
  · refine (List.pairwise_map.1 differ.types).imp fun {p q} other key inP inQ => ?_
    obtain ⟨_, _, rfl⟩ := List.mem_map.1 inP
    obtain ⟨_, _, same⟩ := List.mem_map.1 inQ
    exact other (Prod.mk.inj same).1.symm

theorem call_item {p : Position} (mem : p ∈ g.positions) {m : Method}
    (declared : m ∈ (p.declaration g.record).methods) :
    call g.items (g.typeAt p.members) m.item.name = some m.item.result := by
  have member : ((g.typeAt p.members, m.item.name), m.item) ∈ methodsOf g.items := by
    rw [methodsOf_items]
    exact List.mem_flatMap.2 ⟨p, mem, List.mem_map_of_mem declared⟩
  have found := lookup_eq_some_of_mem (nodup_methodsOf_items differ) member
  rw [call, found, Option.bind_some, if_pos m.type_result_item]

/-- Only the methods at its position can be called on a type. -/
theorem exists_method_of_call {p : Position} (mem : p ∈ g.positions) {name : String}
    {result : Result} (h : call g.items (g.typeAt p.members) name = some result) :
    ∃ m ∈ (p.declaration g.record).methods, m.item.name = name ∧ m.item.result = result := by
  obtain ⟨item, found, given⟩ := Option.bind_eq_some_iff.1 h
  obtain ⟨before, after, split, -⟩ := List.lookup_eq_some_iff.1 found
  have declared : ((g.typeAt p.members, name), item) ∈ methodsOf g.items := by
    rw [split]
    exact List.mem_append_right before List.mem_cons_self
  rw [methodsOf_items] at declared
  obtain ⟨q, inPositions, inMethods⟩ := List.mem_flatMap.1 declared
  obtain ⟨m, inType, same⟩ := List.mem_map.1 inMethods
  obtain ⟨⟨sameType, rfl⟩, rfl⟩ := by simpa only [Prod.mk.injEq] using same
  obtain rfl := List.inj_on_of_nodup_map differ.types inPositions mem sameType
  rw [if_pos m.type_result_item, Option.some.injEq] at given
  exact ⟨m, inType, rfl, given⟩

/-- What the method for an accessor gives, where the members lead to the accessor. -/
def resultAt (g : AccessorGroup) (members : List String) (a : Accessor) : Result :=
  match a.nested with
  | none => .reference a.reference.path
  | some _ => .value (g.typeAt members)

theorem call_member {p : Position} (mem : p ∈ g.positions) {a : Accessor}
    (member : a ∈ p.group.members) :
    call g.items (g.typeAt p.members) (Names.methodName a.member) =
      some (g.resultAt (p.members ++ [a.member]) a) := by
  have declared : memberMethod (stemAt g.record p.members) a ∈
      (p.declaration g.record).methods :=
    List.mem_append_right _ (List.mem_map_of_mem member)
  have called := call_item differ mem declared
  rw [name_item_memberMethod] at called
  rw [called, resultAt, memberMethod]
  cases a.nested with
  | none => rfl
  | some child => rw [typeAt, stemAt_append]; rfl

theorem call_whole {p : Position} (mem : p ∈ g.positions) {r : ParameterReference}
    (below : p.parameter = some r) :
    call g.items (g.typeAt p.members) "reference" = some (.reference r.path) := by
  have declared : Method.whole r.path ∈ (p.declaration g.record).methods := by
    refine List.mem_append_left _ (List.mem_map.2 ⟨r, ?_, rfl⟩)
    rw [below]
    exact List.mem_singleton_self r
  exact call_item differ mem declared

/-- From the type at a position, calls go where the members of its group lead. -/
theorem calls_members {child : AccessorGroup} {members : List String} {a : Accessor}
    (leads : child.At members a) : ∀ p ∈ g.positions, p.group = child →
      calls g.items (g.typeAt p.members) (members.map Names.methodName) =
        some (g.resultAt (p.members ++ members) a) := by
  induction leads with
  | @here child a member =>
    rintro p mem rfl
    rw [List.map_singleton, calls, call_member differ mem member]
    unfold resultAt
    cases a.nested with
    | none => rfl
    | some child => rfl
  | @inside child below a b members member nested _ ih =>
    rintro p mem rfl
    have position := mem_positions_of_nested mem member nested
    have rest := ih _ position rfl
    rw [List.append_assoc, List.singleton_append] at rest
    rw [List.map_cons, calls, call_member differ mem member, resultAt, nested]
    exact rest

/-- Accessors of one group are told apart by their methods. -/
theorem eq_of_methodName_eq {p : Position} (mem : p ∈ g.positions) {a b : Accessor}
    (inA : a ∈ p.group.members) (inB : b ∈ p.group.members)
    (same : Names.methodName a.member = Names.methodName b.member) : a = b :=
  List.inj_on_of_nodup_map (List.nodup_append.1 (differ.methods p mem)).2.1 inA inB same

/-- Ways that are called by the same names lead to the same accessor. -/
theorem eq_of_at {child : AccessorGroup} {members : List String} {a : Accessor}
    (leads : child.At members a) : ∀ p ∈ g.positions, p.group = child → ∀ others b,
      child.At others b → members.map Names.methodName = others.map Names.methodName →
        members = others ∧ a = b := by
  induction leads with
  | @here child a member =>
    rintro p mem rfl others b other same
    cases other with
    | here inB =>
      obtain rfl := eq_of_methodName_eq differ mem member inB (by simpa using same)
      exact ⟨rfl, rfl⟩
    | inside inB nested below =>
      -- More members lead further down, and each of them is called.
      simp [below.ne_nil] at same
  | @inside child group a b members member nested below ih =>
    rintro p mem rfl others c other same
    cases other with
    | here inC => simp [below.ne_nil] at same
    | @inside _ group' d _ others inD nested' below' =>
      obtain ⟨first, rest⟩ := by simpa only [List.map_cons, List.cons.injEq] using same
      obtain rfl := eq_of_methodName_eq differ mem member inD first
      obtain rfl := Option.some.inj (nested.symm.trans nested')
      obtain ⟨rfl, rfl⟩ := ih _ (mem_positions_of_nested mem member nested) rfl _ _ below' rest
      exact ⟨rfl, rfl⟩

/-- Calls from the type at a position go nowhere but to what is below it. -/
theorem exists_at_of_calls (names : List String) {result : Result} : ∀ p ∈ g.positions,
    calls g.items (g.typeAt p.members) names = some result →
      names = [] ∨ p.parameter.isSome = true ∧ names = ["reference"] ∨
        ∃ members a, p.group.At members a ∧ (names = members.map Names.methodName ∨
          a.nested.isSome = true ∧ names = members.map Names.methodName ++ ["reference"]) := by
  induction names with
  | nil => exact fun _ _ _ => .inl rfl
  | cons name names ih =>
    intro p mem h
    rw [calls] at h
    cases called : call g.items (g.typeAt p.members) name with
    | none => simp [called] at h
    | some given =>
      rw [called] at h
      obtain ⟨m, declared, rfl, rfl⟩ := exists_method_of_call differ mem called
      rcases List.mem_append.1 declared with own | inMembers
      · -- The type gives its own parameter, on which nothing more can be called.
        obtain ⟨r, below, rfl⟩ := List.mem_map.1 own
        have last : names = [] := by
          by_contra more
          simp [Method.item, more] at h
        rw [Option.mem_toList] at below
        exact .inr (.inl ⟨Option.isSome_of_mem below, by rw [last]; rfl⟩)
      · obtain ⟨a, member, rfl⟩ := List.mem_map.1 inMembers
        rw [name_item_memberMethod] at called ⊢
        rw [call_member differ mem member, Option.some.injEq] at called
        rw [← called, resultAt] at h
        refine .inr (.inr ?_)
        cases nested : a.nested with
        | none =>
          have last : names = [] := by
            by_contra more
            simp [nested, more] at h
          exact ⟨[a.member], a, .here member, .inl (by rw [last]; rfl)⟩
        | some child =>
          rw [nested] at h
          rcases ih _ (mem_positions_of_nested mem member nested) h with
            rfl | ⟨-, rfl⟩ | ⟨members, b, leads, reached⟩
          · exact ⟨[a.member], a, .here member, .inl rfl⟩
          · exact ⟨[a.member], a, .here member, .inr ⟨by rw [nested]; rfl, rfl⟩⟩
          · refine ⟨a.member :: members, b, .inside member nested leads, ?_⟩
            exact reached.imp (congrArg (Names.methodName a.member :: ·))
              fun whole => ⟨whole.1, congrArg (Names.methodName a.member :: ·) whole.2⟩

theorem serves_items : Serves g.items g := by
  have root : ⟨[], none, g⟩ ∈ g.positions := mem_groupPositions_self [] none g
  have reached {members : List String} {a : Accessor} (leads : g.At members a) :
      calls g.items (g.typeAt []) (members.map Names.methodName) = some (g.resultAt members a) :=
    calls_members differ leads ⟨[], none, g⟩ root rfl
  refine {
    structs := structsOf_items g
    distinct_structs := by
      rw [structsOf_items]
      exact differ.types
    methods := map_fst_methodsOf_items g
    distinct_methods := nodup_methodsOf_items differ
    leaf := ?leaf
    nested := ?nested
    whole := ?whole
    unique := fun members others a b leads other same =>
      eq_of_at differ leads ⟨[], none, g⟩ root rfl others b other same
    only := ?only }
  case leaf =>
    intro members a leads leaf
    rw [reached leads, resultAt, leaf]
  case nested =>
    intro members a leads nested
    obtain ⟨child, nested⟩ := Option.isSome_iff_exists.1 nested
    rw [reached leads, resultAt, nested]
  case whole =>
    intro members a leads nested
    obtain ⟨child, nested⟩ := Option.isSome_iff_exists.1 nested
    have position := mem_positions_iff.2 (.inr ⟨members, a, child, leads, nested, rfl⟩)
    exact call_whole differ position rfl
  case only =>
    intro names result h
    rcases exists_at_of_calls differ names ⟨[], none, g⟩ root h with none | ⟨below, -⟩ | reached
    · exact .inl none
    · cases below
    · exact .inr reached

end NamesDiffer

/-! ## Generated sources -/

/-- If no record has a line feed in its name, the generated source gives the parameters of the tree
and nothing else. -/
theorem serves_source {g : AccessorGroup} {source : String} (h : g.source = .ok source)
    (oneLine : ∀ p ∈ g.positions, '\n' ∉ p.group.record.toList) :
    ∃ items, Code.read source = some items ∧ Serves items g := by
  obtain ⟨types, declared, -⟩ := exists_of_bind_eq_ok h
  exact ⟨g.items, read_source h oneLine, serves_items (declarations_eq_ok declared).2⟩

/-- The same record at two positions, one of them below the other's neighbour. -/
def deployments : AccessorGroup :=
  ⟨"BuildParameters",
    [⟨"runTests", .boolean, ⟨"runTests", by decide⟩, none⟩,
      ⟨"deploy", .record "Deploy", ⟨"deploy", by decide⟩, some ⟨"Deploy",
        [⟨"region", .string, ⟨"deploy.region", by decide⟩, none⟩,
          ⟨"type", .record "Stage", ⟨"deploy.type", by decide⟩, some ⟨"Stage", []⟩⟩]⟩⟩,
      ⟨"Stage", .record "Stage", ⟨"stage", by decide⟩, some ⟨"Stage", []⟩⟩]⟩

theorem exists_source_deployments : ∃ source, deployments.source = .ok source := by
  have accepted : deployments.source.toOption.isSome = true := by decide +kernel
  cases made : deployments.source with
  | error fault => simp [made, Except.toOption] at accepted
  | ok source => exact ⟨source, rfl⟩

theorem serves_source_deployments : ∃ source items, deployments.source = .ok source ∧
    Code.read source = some items ∧ Serves items deployments := by
  obtain ⟨source, made⟩ := exists_source_deployments
  obtain ⟨items, read, serves⟩ := serves_source made (by decide +kernel)
  exact ⟨source, items, made, read, serves⟩

/-- A record whose name ends the comment that it stands in. -/
def brokenRecord : AccessorGroup := ⟨"A\npub struct B;\n//", []⟩

/-- The name of the record declares a type, once for each comment that it stands in. -/
theorem not_serves_source_brokenRecord : ¬∀ source, brokenRecord.source = .ok source →
    ∃ items, Code.read source = some items ∧ Serves items brokenRecord := by
  intro all
  obtain ⟨source, made⟩ : ∃ source, brokenRecord.source = .ok source := ⟨_, rfl⟩
  obtain ⟨items, read, serves⟩ := all source made
  have record : Reads .comment brokenRecord.record.toList
      [.word "pub", .word "struct", .word "B", .mark ';'] .comment := rfl
  rw [read_source_eq made (fun _ => [.word "pub", .word "struct", .word "B", .mark ';'])
    fun p mem => by
      obtain rfl := List.mem_singleton.1 mem
      exact record] at read
  have positions : brokenRecord.positions = [⟨[], none, brokenRecord⟩] := rfl
  rw [positions, List.map_singleton, List.flatMap_singleton] at read
  simp only [List.cons_append, List.nil_append] at read
  rw [readItems, readItems, readItems, ← List.append_nil (typeTokens _ _), readItems_typeTokens,
    readItems] at read
  simp only [Option.map_some, Option.some.injEq] at read
  have one : (structsOf items).length = 1 := by
    rw [serves.structs, positions, List.map_singleton, List.length_singleton]
  have three : (structsOf items).length = 3 := by
    rw [← read]
    rfl
  omega

end AccessorGroup

end AzurePipelines
