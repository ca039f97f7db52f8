import AzurePipelines.Proofs.Schema.Calls
import Mathlib

/-!
# Names in the scope of generated code

Generated code imports the type of parameter references and declares one type for each position, and
methods name both kinds.  `Code.scope` lists the names that are brought into scope, and `Code.Binds`
says which item a name belongs to, where there is one only.

The names of the declared types are compared with each other, but not with the imported one: they
all differ exactly if at no position the names of the members make `Parameter`, in front of the
common ending, and only then does the imported name belong to the import
(`AccessorGroup.nodup_scope_iff`).
-/

namespace AzurePipelines

namespace Code

/-! ## Scope -/

/-- The names that an item brings into scope. -/
def Item.names : Item → List String
  | .use _ name => [name]
  | .struct name => [name]
  | .methods _ _ => []

/-- The names in scope, once for each item that brings them. -/
def scope (items : List Item) : List String := items.flatMap Item.names

/-- The item is the only one that brings the name into scope. -/
def Binds (items : List Item) (name : String) (item : Item) : Prop :=
  items.filter (fun other => name ∈ other.names) = [item]

/-- An item that comes first has its names for itself if none of the others brings them. -/
theorem binds_cons_iff {item : Item} {items : List Item} {name : String}
    (own : name ∈ item.names) : Binds (item :: items) name item ↔ name ∉ scope items := by
  unfold Binds scope
  rw [List.filter_cons_of_pos (by simpa using own), List.cons_eq_cons, List.filter_eq_nil_iff]
  simp

end Code

open Code

namespace AccessorGroup

/-! ## Scope of generated code -/

/-- The import comes first, and then the types of all positions. -/
theorem scope_items (g : AccessorGroup) :
    scope g.items = "ParameterReference" :: g.positions.map fun p => g.typeAt p.members := by
  simp [items, scope, Item.names, List.flatMap_assoc, TypeDeclaration.items, Position.declaration,
    typeAt, List.map_eq_flatMap]

theorem binds_items_iff (g : AccessorGroup) :
    Binds g.items "ParameterReference" (.use "pipeline_core" "ParameterReference") ↔
      "ParameterReference" ∉ g.positions.map fun p => g.typeAt p.members := by
  have types := g.scope_items
  rw [items, scope, List.flatMap_cons, Item.names, List.singleton_append, List.cons.injEq] at types
  rw [items, binds_cons_iff (List.mem_singleton_self _), scope, types.2]

/-- The imported name is that of a type where the names of the members make the rest of it. -/
theorem imported_mem_types_iff (g : AccessorGroup) :
    ("ParameterReference" ∈ g.positions.map fun p => g.typeAt p.members) ↔
      ∃ p ∈ g.positions, stemAt g.record p.members = "Parameter" := by
  have imported : "ParameterReference" = typeName "Parameter" := by decide
  rw [imported, List.mem_map]
  refine exists_congr fun p => and_congr_right fun _ => ?_
  exact ⟨fun same => typeName_injective same, fun same => congrArg typeName same⟩

/-- The names in scope differ exactly if at no position the members make `Parameter`, and then the
imported name belongs to the import. -/
theorem nodup_scope_iff {g : AccessorGroup} {source : String} (made : g.source = .ok source) :
    ∃ types, g.declarations = .ok types ∧
      ((∀ p ∈ g.positions, '\n' ∉ p.group.record.toList) →
        Code.read source = some (declaredItems types)) ∧
      scope (declaredItems types) =
        "ParameterReference" :: (g.positions.map fun p => g.typeAt p.members) ∧
      ((scope (declaredItems types)).Nodup ↔
        ∀ p ∈ g.positions, stemAt g.record p.members ≠ "Parameter") ∧
      ((scope (declaredItems types)).Nodup ↔ Binds (declaredItems types) "ParameterReference"
        (.use "pipeline_core" "ParameterReference")) := by
  obtain ⟨types, declared, same, differ, reading⟩ := exists_declarations made
  have apart : (scope g.items).Nodup ↔
      "ParameterReference" ∉ g.positions.map fun p => g.typeAt p.members := by
    rw [scope_items, List.nodup_cons]
    exact and_iff_left differ.types
  refine ⟨types, declared, reading, same ▸ g.scope_items, ?_, ?_⟩
  · rw [same, apart, imported_mem_types_iff]
    push Not
    rfl
  · rw [same, apart, binds_items_iff]

/-- All names of `deployments` differ, and references are what is imported. -/
theorem nodup_scope_iff_deployments : ∃ source types, deployments.source = .ok source ∧
    deployments.declarations = .ok types ∧ Code.read source = some (declaredItems types) ∧
      (scope (declaredItems types)).Nodup ∧ Binds (declaredItems types) "ParameterReference"
        (.use "pipeline_core" "ParameterReference") := by
  obtain ⟨source, made⟩ := exists_source_deployments
  obtain ⟨types, declared, reading, -, exact, binds⟩ := nodup_scope_iff made
  have distinct := exact.2 (by decide +kernel)
  exact ⟨source, types, made, declared, reading (by decide +kernel), distinct, binds.1 distinct⟩

/-- A record whose type has the name of the import. -/
def parameterRecord : AccessorGroup := ⟨"Parameter", []⟩

/-- The imported name is brought into scope twice, and belongs to neither item. -/
theorem parameterRecord_clashes : ∃ source items, parameterRecord.source = .ok source ∧
    Code.read source = some items ∧ scope items = ["ParameterReference", "ParameterReference"] ∧
      ¬(scope items).Nodup ∧
      ¬Binds items "ParameterReference" (.use "pipeline_core" "ParameterReference") := by
  obtain ⟨source, made⟩ : ∃ source, parameterRecord.source = .ok source := ⟨_, rfl⟩
  have positions : parameterRecord.positions = [⟨[], none, parameterRecord⟩] := rfl
  have names : scope parameterRecord.items = ["ParameterReference", "ParameterReference"] := by
    rw [scope_items, positions]
    decide
  refine ⟨source, _, made, read_source made (by rw [positions]; decide), names, ?_, ?_⟩
  · rw [names]
    decide
  · rw [binds_items_iff, positions]
    decide

end AccessorGroup

end AzurePipelines
