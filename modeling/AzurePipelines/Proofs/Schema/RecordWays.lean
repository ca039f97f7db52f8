import AzurePipelines.Proofs.Schema.References
import Mathlib

/-!
# Ways to records

The tree of accessors of a root record has a group wherever the types of parameters lead to another
record.  `Schema.Leads` follows the schema itself, from a record through one of its parameters, own
or inherited, to the record that is its type.  The positions of the tree are the ways that lead to a
record (`Schema.exists_position_iff`), and the group that stands there has an accessor for each
parameter of the record and no others (`Schema.covers_of_mem_positions`).
-/

namespace AzurePipelines

namespace Schema

variable {s : Schema} {root record : String} {g : AccessorGroup} {a : Accessor}
  {way : List String}

/-! ## Ways -/

/-- The members lead from a root record to another: each is a parameter of the record before it, and
its type is the next. -/
inductive Leads (s : Schema) (root : String) : List String → String → Prop
  | here : s.Leads root [] root
  | inside {way : List String} {record inner : String} {m : Member} : s.Leads root way record →
    s.HasParameter record m → m.kind = .record inner → s.Leads root (way ++ [m.name]) inner

theorem Leads.cons {inner : String} {m : Member} (has : s.HasParameter root m)
    (isRecord : m.kind = .record inner) (leads : s.Leads inner way record) :
    s.Leads root (m.name :: way) record := by
  induction leads with
  | here => exact .inside .here has isRecord
  | inside _ has' isRecord' ih => exact .inside ih has' isRecord'

theorem Leads.reaches (leads : s.Leads root way record) : s.Reaches root record := by
  induction leads with
  | here => exact .refl
  | inside _ has isRecord ih => exact .tail ih ⟨_, has, isRecord⟩

theorem exists_leads_of_reaches (reached : s.Reaches root record) :
    ∃ way, s.Leads root way record := by
  induction reached with
  | refl => exact ⟨[], .here⟩
  | tail _ contains ih =>
    obtain ⟨way, leads⟩ := ih
    obtain ⟨m, has, isRecord⟩ := contains
    exact ⟨_, .inside leads has isRecord⟩

/-! ## Groups of records -/

/-- A group has an accessor for each parameter of its record, and for nothing else. -/
structure Covers (s : Schema) (g : AccessorGroup) : Prop where
  given : ∀ a ∈ g.members, ∃ m, s.HasParameter g.record m ∧ a.member = m.name ∧ a.kind = m.kind
  complete : ∀ m, s.HasParameter g.record m → ∃ a ∈ g.members, a.member = m.name ∧ a.kind = m.kind

theorem record_of_accessors_eq_ok (h : s.accessors record = .ok g) : g.record = record := by
  obtain ⟨_, made⟩ := accessors_eq_ok_iff.1 h
  obtain ⟨_, _, _, _, isRecord, _⟩ := group_eq_ok_iff.1 made
  exact isRecord

theorem covers_of_accessors_eq_ok (h : s.accessors record = .ok g) : s.Covers g := by
  obtain rfl := record_of_accessors_eq_ok h
  constructor
  · intro a member
    obtain ⟨m, has, describes⟩ := exists_describes_of_mem h member
    exact ⟨m, has, describes.member, describes.kind⟩
  · intro m has
    obtain ⟨a, member, describes⟩ := exists_describes_of_hasParameter h has
    exact ⟨a, member, describes.member, describes.kind⟩

theorem Covers.under (covers : s.Covers g) (above : ParameterReference) :
    s.Covers (g.under above) := by
  rw [AccessorGroup.under_eq]
  constructor
  · intro a member
    obtain ⟨b, inGroup, rfl⟩ := List.mem_map.1 member
    rw [Accessor.member_under, Accessor.kind_under]
    exact covers.given b inGroup
  · intro m has
    obtain ⟨b, member, same⟩ := covers.complete m has
    refine ⟨_, List.mem_map_of_mem member, ?_⟩
    rwa [Accessor.member_under, Accessor.kind_under]

/-! ## Positions -/

/-- An accessor stands behind members that lead to the record that has its parameter. -/
theorem exists_leads_of_at (h : s.accessors record = .ok g) (leads : g.At way a) :
    ∃ before owner m, s.Leads record before owner ∧ s.HasParameter owner m ∧
      way = before ++ [m.name] ∧ a.kind = m.kind := by
  induction way generalizing record g a with
  | nil => exact absurd rfl leads.ne_nil
  | cons name way ih =>
    cases leads with
    | here member =>
      obtain ⟨m, has, describes⟩ := exists_describes_of_mem h member
      exact ⟨[], record, m, .here, has, by rw [describes.member]; rfl, describes.kind⟩
    | @inside _ child b _ _ member nested leads =>
      obtain ⟨m, has, describes⟩ := exists_describes_of_mem h member
      obtain ⟨inner, below, kind, found, rfl⟩ := (nested ▸ describes.nested).exists_of_some
      obtain ⟨a', leadsBelow, rfl⟩ := leads.exists_of_under
      obtain ⟨before, owner, m', leads', has', rfl, isKind⟩ := ih found leadsBelow
      refine ⟨m.name :: before, owner, m', .cons has (describes.kind ▸ kind) leads', has', ?_, ?_⟩
      · rw [describes.member]
        rfl
      · rwa [Accessor.kind_under]

/-- What stands below an accessor is the group of the record that is the type of its parameter. -/
theorem exists_record_of_nested (h : s.accessors root = .ok g) (leads : g.At way a)
    {child : AccessorGroup} (nested : a.nested = some child) :
    a.kind = .record child.record ∧ s.Covers child := by
  obtain ⟨inner, below, kind, found, rfl⟩ := (nested ▸ nests_of_at h leads).exists_of_some
  have isRecord : (below.under a.reference).record = inner := by
    rw [AccessorGroup.under_eq, record_of_accessors_eq_ok found]
  exact ⟨isRecord ▸ kind, (covers_of_accessors_eq_ok found).under _⟩

theorem exists_nested_of_kind (h : s.accessors root = .ok g) (leads : g.At way a)
    (isRecord : a.kind = .record record) :
    ∃ child, a.nested = some child ∧ child.record = record := by
  have nests := nests_of_at h leads
  rw [isRecord] at nests
  obtain ⟨below, found, nested⟩ := nests
  refine ⟨_, nested, ?_⟩
  rw [AccessorGroup.under_eq, record_of_accessors_eq_ok found]

/-- The members lead to the record at each position. -/
theorem leads_of_mem_positions (h : s.accessors root = .ok g) {p : Position}
    (mem : p ∈ g.positions) : s.Leads root p.members p.group.record := by
  rcases AccessorGroup.mem_positions_iff.1 mem with rfl | ⟨way, a, child, leads, nested, rfl⟩
  · exact record_of_accessors_eq_ok h ▸ .here
  · obtain ⟨before, owner, m, leadsTo, has, rfl, isKind⟩ := exists_leads_of_at h leads
    exact .inside leadsTo has (isKind ▸ (exists_record_of_nested h leads nested).1)

/-- At each position stands the group of a record. -/
theorem covers_of_mem_positions (h : s.accessors root = .ok g) {p : Position}
    (mem : p ∈ g.positions) : s.Covers p.group := by
  rcases AccessorGroup.mem_positions_iff.1 mem with rfl | ⟨way, a, child, leads, nested, rfl⟩
  · exact covers_of_accessors_eq_ok h
  · exact (exists_record_of_nested h leads nested).2

/-- Wherever members lead to a record, its group has a position. -/
theorem exists_position_of_leads (h : s.accessors root = .ok g)
    (leads : s.Leads root way record) :
    ∃ p ∈ g.positions, p.members = way ∧ p.group.record = record := by
  induction leads with
  | here => exact ⟨_, mem_groupPositions_self [] none g, rfl, record_of_accessors_eq_ok h⟩
  | inside _ has isRecord ih =>
    obtain ⟨p, mem, rfl, rfl⟩ := ih
    obtain ⟨a, member, isName, isKind⟩ := (covers_of_mem_positions h mem).complete _ has
    obtain ⟨child, nested, below⟩ := exists_nested_of_kind h
      (AccessorGroup.at_of_mem_positions mem member) (isKind.trans isRecord)
    have position := AccessorGroup.mem_positions_of_nested mem member nested
    exact ⟨_, position, by rw [isName], below⟩

/-- The positions of the accessors of a record are the ways that lead from it to records. -/
theorem exists_position_iff (h : s.accessors root = .ok g) :
    (∃ p ∈ g.positions, p.members = way ∧ p.group.record = record) ↔
      s.Leads root way record := by
  refine ⟨?_, exists_position_of_leads h⟩
  rintro ⟨p, mem, rfl, rfl⟩
  exact leads_of_mem_positions h mem

/-- The accessors in a tree are named for the parameters of the records that the root reaches. -/
theorem forall_member_iff (h : s.accessors root = .ok g) {motive : String → Prop} :
    (∀ p ∈ g.positions, ∀ a ∈ p.group.members, motive a.member) ↔
      ∀ record m, s.Reaches root record → s.HasParameter record m → motive m.name := by
  constructor
  · intro each record m reached has
    obtain ⟨way, leads⟩ := exists_leads_of_reaches reached
    obtain ⟨p, mem, rfl, rfl⟩ := exists_position_of_leads h leads
    obtain ⟨a, member, isName, -⟩ := (covers_of_mem_positions h mem).complete m has
    exact isName ▸ each p mem a member
  · intro each p mem a member
    obtain ⟨m, has, isName, -⟩ := (covers_of_mem_positions h mem).given a member
    exact isName ▸ each _ m (leads_of_mem_positions h mem).reaches has

end Schema

end AzurePipelines
