import AzurePipelines.Proofs.Schema.Composition
import Mathlib

/-!
# References of a schema

The name of a parameter may be a path with several segments, so that a path can denote two
parameters: one that has it for a name, and one inside a record parameter whose name the first
segments are.  `Schema.Denotes` relates a parameter to the paths that denote it or what is inside
it, and a schema gives no two references one path exactly if nowhere a path denotes two parameters
of one record (`Schema.nodup_references_iff`).

Names are compared within a record, where they differ.  So only a name that goes on, behind a dot,
from the name of a record parameter beside it can bring about that two references are the same.
-/

namespace AzurePipelines

/-! ## References of groups -/

/-- The reference of the accessor, and those below it. -/
def Accessor.references (a : Accessor) : List ParameterReference := a.flatten.map (·.reference)

theorem flattenMembers_eq_flatMap (members : List Accessor) :
    flattenMembers members = members.flatMap Accessor.flatten := by
  induction members with
  | nil => rfl
  | cons accessor rest ih => rw [flattenMembers, ih, List.flatMap_cons]

theorem AccessorGroup.references_eq (g : AccessorGroup) :
    g.references = g.members.flatMap Accessor.references := by
  obtain ⟨record, members⟩ := g
  rw [references, flatten, flattenMembers_eq_flatMap, List.map_flatMap]
  rfl

theorem Accessor.references_eq (a : Accessor) :
    a.references = a.reference :: a.nested.elim [] (·.references) := by
  obtain ⟨member, kind, reference, nested⟩ := a
  cases nested <;> rfl

-- Nothing but the references changes where a group is moved below a parameter.

mutual

theorem AccessorGroup.flatten_under (above : ParameterReference) :
    ∀ g : AccessorGroup, (g.under above).flatten = g.flatten.map (·.under above)
  | ⟨record, members⟩ => by
    rw [AccessorGroup.under, AccessorGroup.flatten, AccessorGroup.flatten,
      flattenMembers_membersUnder above members]

theorem flattenMembers_membersUnder (above : ParameterReference) :
    ∀ members : List Accessor,
      flattenMembers (membersUnder above members) =
        (flattenMembers members).map (·.under above)
  | [] => rfl
  | accessor :: rest => by
    rw [membersUnder, flattenMembers, flattenMembers, List.map_append,
      Accessor.flatten_under above accessor, flattenMembers_membersUnder above rest]

theorem Accessor.flatten_under (above : ParameterReference) :
    ∀ accessor : Accessor, (accessor.under above).flatten = accessor.flatten.map (·.under above)
  | ⟨member, kind, reference, none⟩ => rfl
  | ⟨member, kind, reference, some group⟩ => by
    simp only [Accessor.under, nestedUnder, Accessor.flatten, flattenNested, List.map_cons,
      AccessorGroup.flatten_under above group]

end

theorem AccessorGroup.references_under (above : ParameterReference) (g : AccessorGroup) :
    (g.under above).references = g.references.map above.append := by
  rw [references, flatten_under, references, List.map_map, List.map_map]
  exact List.map_congr_left fun a _ => Accessor.reference_under above a

theorem AccessorGroup.length_references_le {g : AccessorGroup} {a : Accessor}
    (member : a ∈ g.members) : a.references.length ≤ g.references.length := by
  rw [references_eq, List.flatMap_def]
  exact (List.sublist_flatten_of_mem (List.mem_map_of_mem member)).length_le

namespace Schema

variable {s : Schema} {record : String} {m m' : Member} {a : Accessor} {g : AccessorGroup}

/-! ## Paths that denote parameters -/

/-- The path denotes the parameter, or one inside it. -/
inductive Denotes (s : Schema) : Member → String → Prop
  | whole (m : Member) : s.Denotes m m.serializedName
  | inside {m other : Member} {inner path : String} : m.kind = .record inner →
    s.HasParameter inner other → s.Denotes other path →
    s.Denotes m (m.serializedName ++ "." ++ path)

/-- No path denotes two parameters of the record. -/
def PathsDiffer (s : Schema) (record : String) : Prop :=
  ∀ m m', s.HasParameter record m → s.HasParameter record m' →
    ∀ path, s.Denotes m path → s.Denotes m' path → m = m'

theorem hasParameter_iff_of_membersOf {members : List Member}
    (found : s.membersOf record = .ok members) :
    s.HasParameter record m ↔ m ∈ parametersAmong members := by
  obtain ⟨records, chained, _, rfl⟩ := membersOf_eq_ok_iff.1 found
  exact chained.hasParameter_iff

theorem exists_describes_of_mem (h : s.accessors record = .ok g) (member : a ∈ g.members) :
    ∃ m, s.HasParameter record m ∧ s.Describes m a := by
  obtain ⟨members, found, each⟩ := describes_of_accessors_eq_ok h
  obtain ⟨m, given, describes⟩ := exists_of_mem_right each member
  exact ⟨m, (hasParameter_iff_of_membersOf found).2 given, describes⟩

theorem exists_describes_of_hasParameter (h : s.accessors record = .ok g)
    (has : s.HasParameter record m) : ∃ a ∈ g.members, s.Describes m a := by
  obtain ⟨members, found, each⟩ := describes_of_accessors_eq_ok h
  exact exists_of_mem_right each.flip ((hasParameter_iff_of_membersOf found).1 has)

/-- Below the accessor of a parameter are the references of its record, if its type is one. -/
theorem Describes.references_eq (describes : s.Describes m a) :
    (∃ inner below, m.kind = .record inner ∧ s.accessors inner = .ok below ∧
      a.references = a.reference :: below.references.map a.reference.append) ∨
    ((∀ inner, m.kind ≠ .record inner) ∧ a.references = [a.reference]) := by
  have nests := describes.nested
  rw [describes.kind] at nests
  rw [Accessor.references_eq]
  cases kind : m.kind with
  | record inner =>
    rw [kind] at nests
    obtain ⟨below, made, nested⟩ := nests
    refine .inl ⟨inner, below, rfl, made, ?_⟩
    rw [nested, Option.elim_some, AccessorGroup.references_under]
  | _ =>
    rw [kind] at nests
    have nested : a.nested = none := nests
    refine .inr ⟨nofun, ?_⟩
    rw [nested, Option.elim_none]

/-- What holds of an accessor whenever it holds of those below it, holds of all. -/
theorem Describes.induction {motive : Member → Accessor → Prop}
    (step : ∀ m a, s.Describes m a →
      (∀ inner below, m.kind = .record inner → s.accessors inner = .ok below →
        ∀ b ∈ below.members, ∀ other, s.HasParameter inner other → s.Describes other b →
          motive other b) → motive m a)
    {m : Member} {a : Accessor} (describes : s.Describes m a) : motive m a := by
  refine step m a describes fun inner below isRecord made b member other _ inside => ?_
  have smaller : b.references.length < a.references.length := by
    have atMost := AccessorGroup.length_references_le member
    rcases describes.references_eq with ⟨inner', below', isRecord', made', all⟩ | ⟨plain, _⟩
    · cases isRecord.symm.trans isRecord'
      cases made.symm.trans made'
      rw [all, List.length_cons, List.length_map]
      omega
    · exact absurd isRecord (plain inner)
  exact Describes.induction step inside
termination_by a.references.length

/-- The references of an accessor have the paths that denote its parameter, or one inside it. -/
theorem Describes.denotes (describes : s.Describes m a) :
    ∀ r ∈ a.references, s.Denotes m r.path := by
  refine Describes.induction (motive := fun m a => ∀ r ∈ a.references, s.Denotes m r.path)
    (fun m a describes ih r member => ?_) describes
  have whole : s.Denotes m a.reference.path := describes.path ▸ .whole m
  rcases describes.references_eq with ⟨inner, below, isRecord, made, all⟩ | ⟨_, all⟩
  · rw [all] at member
    rcases List.mem_cons.1 member with rfl | member
    · exact whole
    · obtain ⟨r, ofBelow, rfl⟩ := List.mem_map.1 member
      rw [AccessorGroup.references_eq] at ofBelow
      obtain ⟨b, inBelow, ofB⟩ := List.mem_flatMap.1 ofBelow
      obtain ⟨other, has, inside⟩ := exists_describes_of_mem made inBelow
      have denotes := ih inner below isRecord made b inBelow other has inside r ofB
      rw [ParameterReference.path_append, describes.path]
      exact .inside isRecord has denotes
  · rw [all] at member
    rw [List.mem_singleton.1 member]
    exact whole

theorem Denotes.exists_reference {path : String} (denotes : s.Denotes m path)
    (describes : s.Describes m a) : ∃ r ∈ a.references, r.path = path := by
  induction denotes generalizing a with
  | whole m =>
    refine ⟨a.reference, ?_, describes.path⟩
    rw [Accessor.references_eq]
    exact List.mem_cons_self
  | @inside m other inner path isRecord has _ ih =>
    rcases describes.references_eq with ⟨inner', below, isRecord', made, all⟩ | ⟨plain, _⟩
    · cases isRecord.symm.trans isRecord'
      obtain ⟨b, inBelow, inside⟩ := exists_describes_of_hasParameter made has
      obtain ⟨r, member, rfl⟩ := ih inside
      refine ⟨a.reference.append r, ?_, ?_⟩
      · rw [all, AccessorGroup.references_eq]
        exact List.mem_cons_of_mem _
          (List.mem_map_of_mem (List.mem_flatMap.2 ⟨b, inBelow, member⟩))
      · rw [ParameterReference.path_append, describes.path]
    · exact absurd isRecord (plain inner)

/-! ## Distinct references -/

theorem eq_of_serializedName_eq (h : s.accessors record = .ok g)
    (has : s.HasParameter record m) (has' : s.HasParameter record m')
    (same : m.serializedName = m'.serializedName) : m = m' := by
  obtain ⟨_, made⟩ := accessors_eq_ok_iff.1 h
  obtain ⟨_, members, found, distinct, _⟩ := group_eq_ok_iff.1 made
  exact List.inj_on_of_nodup_map distinct ((hasParameter_iff_of_membersOf found).1 has)
    ((hasParameter_iff_of_membersOf found).1 has') same

theorem nodup_members (h : s.accessors record = .ok g) : g.members.Nodup := by
  obtain ⟨_, made⟩ := accessors_eq_ok_iff.1 h
  obtain ⟨_, members, found, distinct, _⟩ := group_eq_ok_iff.1 made
  obtain ⟨members', found', each⟩ := describes_of_accessors_eq_ok h
  obtain rfl := Except.ok.inj (found.symm.trans found')
  have paths : g.members.map (·.reference.path) =
      (parametersAmong members).map Member.serializedName := by
    rw [← List.forall₂_eq_eq_eq, List.forall₂_map_left_iff, List.forall₂_map_right_iff]
    exact each.flip.imp fun _ _ describes => describes.path
  exact .of_map _ (paths ▸ distinct)

/-- The references of a record differ, if those of each of its parameters do, and no path denotes
two of them. -/
theorem nodup_references_iff_of_members (h : s.accessors record = .ok g) :
    g.references.Nodup ↔ (∀ a ∈ g.members, a.references.Nodup) ∧ s.PathsDiffer record := by
  rw [AccessorGroup.references_eq, List.nodup_flatMap]
  refine and_congr_right fun _ => ⟨fun apart m m' has has' path denotes denotes' => ?_,
    fun differ => ?_⟩
  · obtain ⟨a, member, describes⟩ := exists_describes_of_hasParameter h has
    obtain ⟨a', member', describes'⟩ := exists_describes_of_hasParameter h has'
    obtain ⟨r, inA, isPath⟩ := denotes.exists_reference describes
    obtain ⟨r', inA', isPath'⟩ := denotes'.exists_reference describes'
    obtain rfl := ParameterReference.eq_of_path_eq (isPath.trans isPath'.symm)
    have same : a = a' := by
      by_contra other
      have : Std.Symm (Function.onFun List.Disjoint Accessor.references) :=
        ⟨fun _ _ disjoint => disjoint.symm⟩
      exact apart.forall member member' other inA inA'
    subst same
    exact eq_of_serializedName_eq h has has' (describes.path.symm.trans describes'.path)
  · refine (nodup_members h).pairwise_of_forall_ne fun a member a' member' other r inA inA' => ?_
    obtain ⟨m, has, describes⟩ := exists_describes_of_mem h member
    obtain ⟨m', has', describes'⟩ := exists_describes_of_mem h member'
    obtain rfl := differ m m' has has' r.path (describes.denotes r inA) (describes'.denotes r inA')
    exact other (rightUnique_describes s describes describes')

theorem Describes.nodup_references (describes : s.Describes m a)
    (differ : ∀ inner, m.kind = .record inner → ∀ record, s.Reaches inner record →
      s.PathsDiffer record) : a.references.Nodup := by
  refine Describes.induction (motive := fun m a => (∀ inner, m.kind = .record inner →
    ∀ record, s.Reaches inner record → s.PathsDiffer record) → a.references.Nodup)
    (fun m a describes ih differ => ?_) describes differ
  rcases describes.references_eq with ⟨inner, below, isRecord, made, all⟩ | ⟨_, all⟩
  · have nodup : below.references.Nodup := by
      refine (nodup_references_iff_of_members made).2
        ⟨fun b inBelow => ?_, differ inner isRecord inner .refl⟩
      obtain ⟨other, has, inside⟩ := exists_describes_of_mem made inBelow
      refine ih inner below isRecord made b inBelow other has inside fun inner' isInner => ?_
      exact fun record reached => differ inner isRecord record (.head ⟨other, has, isInner⟩ reached)
    rw [all, List.nodup_cons]
    refine ⟨fun repeated => ?_, nodup.map a.reference.append_right_injective⟩
    -- What is below a reference is longer than the reference.
    obtain ⟨r, _, same⟩ := List.mem_map.1 repeated
    have lengths := congrArg (fun r => r.path.length) same
    simp only [ParameterReference.path_append, String.length_append] at lengths
    have dot : ".".length = 1 := rfl
    omega
  · rw [all]
    exact List.nodup_singleton _

theorem exists_accessors_of_reaches {root : String} (h : s.accessors root = .ok g)
    (reached : s.Reaches root record) : ∃ g', s.accessors record = .ok g' := by
  obtain ⟨distinct, made⟩ := accessors_eq_ok_iff.1 h
  obtain ⟨_, _, _, inside, _⟩ := exists_group_of_reaches made reached
  exact (consistent_of_group_eq_ok distinct inside).exists_accessors

theorem nodup_references_of_reaches {root : String} (h : s.accessors root = .ok g)
    (nodup : g.references.Nodup) (reached : s.Reaches root record) :
    ∃ g', s.accessors record = .ok g' ∧ g'.references.Nodup := by
  induction reached with
  | refl => exact ⟨g, h, nodup⟩
  | tail _ contains ih =>
    obtain ⟨outer, made, nodup⟩ := ih
    obtain ⟨m, has, isRecord⟩ := contains
    obtain ⟨a, member, describes⟩ := exists_describes_of_hasParameter made has
    have own := ((nodup_references_iff_of_members made).1 nodup).1 a member
    rcases describes.references_eq with ⟨inner, below, isRecord', madeBelow, all⟩ | ⟨plain, _⟩
    · cases isRecord.symm.trans isRecord'
      rw [all, List.nodup_cons] at own
      exact ⟨below, madeBelow, own.2.of_map⟩
    · exact absurd isRecord (plain _)

/-! ## Names that go on from others -/

/-- The name of the second parameter goes on from that of the first, a record, behind a dot. -/
def Continues (m m' : Member) : Prop :=
  (∃ inner, m.kind = .record inner) ∧
    m.serializedName.toList ++ ['.'] <+: m'.serializedName.toList

/-- A path starts with the segments of the name of each parameter that it denotes. -/
theorem Denotes.prefix_path {path : String} (denotes : s.Denotes m path) :
    m.serializedName.toList ++ ['.'] <+: path.toList ++ ['.'] := by
  cases denotes with
  | whole => exact List.prefix_rfl
  | @inside _ _ _ rest => exact ⟨rest.toList ++ ['.'], by simp⟩

theorem Denotes.continues {path : String} (denotes : s.Denotes m path)
    (denotes' : s.Denotes m' path) (other : m.serializedName ≠ m'.serializedName)
    (first : m.serializedName.toList ++ ['.'] <+: m'.serializedName.toList ++ ['.']) :
    Continues m m' := by
  have goesOn : m.serializedName.toList ++ ['.'] <+: m'.serializedName.toList := by
    rcases List.prefix_concat_iff.1 first with same | shorter
    · exact absurd (String.toList_inj.1 (List.append_cancel_right same)) other
    · exact shorter
  refine ⟨?_, goesOn⟩
  cases denotes with
  | inside isRecord => exact ⟨_, isRecord⟩
  | whole =>
    -- The whole path is the shorter name, which the longer one would have to start.
    have longer := denotes'.prefix_path.length_le
    have shorter := goesOn.length_le
    simp only [List.length_append, List.length_singleton] at longer shorter
    omega

theorem exists_continues_of_not_pathsDiffer (h : s.accessors record = .ok g)
    (clash : ¬s.PathsDiffer record) :
    ∃ m m', s.HasParameter record m ∧ s.HasParameter record m' ∧ Continues m m' := by
  unfold PathsDiffer at clash
  push Not at clash
  obtain ⟨m, m', has, has', path, denotes, denotes', other⟩ := clash
  have names : m.serializedName ≠ m'.serializedName :=
    fun same => other (eq_of_serializedName_eq h has has' same)
  rcases List.prefix_or_prefix_of_prefix denotes.prefix_path denotes'.prefix_path with first | first
  · exact ⟨m, m', has, has', denotes.continues denotes' names first⟩
  · exact ⟨m', m, has', has, denotes'.continues denotes names.symm first⟩

/-- **The references of a schema are pairwise distinct exactly if no path denotes two parameters of
one record**, for all records that the root reaches.  Where two references are the same, the name of
a parameter goes on behind a dot from that of a record beside it; names of one segment each cannot
bring it about. -/
theorem nodup_references_iff {root : String} (h : s.accessors root = .ok g) :
    (g.references.Nodup ↔ ∀ record, s.Reaches root record → s.PathsDiffer record) ∧
      (¬g.references.Nodup → ∃ record m m', s.Reaches root record ∧
        s.HasParameter record m ∧ s.HasParameter record m' ∧ Continues m m') ∧
      ((∀ record m, s.Reaches root record → s.HasParameter record m →
        '.' ∉ m.serializedName.toList) → g.references.Nodup) := by
  have exact : g.references.Nodup ↔ ∀ record, s.Reaches root record → s.PathsDiffer record := by
    constructor
    · intro nodup record reached
      obtain ⟨g', made, nodup'⟩ := nodup_references_of_reaches h nodup reached
      exact ((nodup_references_iff_of_members made).1 nodup').2
    · intro differ
      refine (nodup_references_iff_of_members h).2 ⟨fun a member => ?_, differ root .refl⟩
      obtain ⟨m, has, describes⟩ := exists_describes_of_mem h member
      exact describes.nodup_references fun inner isRecord record reached =>
        differ record (.head ⟨m, has, isRecord⟩ reached)
  have culprits : ¬g.references.Nodup → ∃ record m m', s.Reaches root record ∧
      s.HasParameter record m ∧ s.HasParameter record m' ∧ Continues m m' := by
    intro repeated
    rw [exact] at repeated
    push Not at repeated
    obtain ⟨record, reached, clash⟩ := repeated
    obtain ⟨g', made⟩ := exists_accessors_of_reaches h reached
    obtain ⟨m, m', has, has', continues⟩ := exists_continues_of_not_pathsDiffer made clash
    exact ⟨record, m, m', reached, has, has', continues⟩
  refine ⟨exact, culprits, fun undotted => ?_⟩
  by_contra repeated
  obtain ⟨record, m, m', reached, _, has', _, start⟩ := culprits repeated
  exact undotted record m' reached has' (start.subset (by simp))

/-- A record parameter, and beside it a parameter whose name is the path of one inside the
record. -/
def overlapSchema : Schema where
  records := [
    { name := "Root", members := [
      { name := "Settings", parameterName := some "settings", kind := .record "Settings" },
      { name := "Region", parameterName := some "settings.region" }] },
    { name := "Settings", members := [{ name := "region" }] }]

/-- The accessors of `overlapSchema`. -/
def overlapGroup : AccessorGroup :=
  let settings : ParameterReference := ⟨"settings", by decide⟩
  let region : ParameterReference := ⟨"settings.region", by decide⟩
  ⟨"Root", [
    ⟨"Settings", .record "Settings", settings,
      some ⟨"Settings", [⟨"region", .string, region, none⟩]⟩⟩,
    ⟨"Region", .string, region, none⟩]⟩

theorem accessors_overlapSchema : overlapSchema.accessors "Root" = .ok overlapGroup := by
  have found : overlapSchema.membersOf "Root" =
        .ok ((overlapSchema.records.take 1).flatMap (·.members)) :=
    membersOf_eq_ok_iff.2 ⟨_, .last rfl rfl, by decide, rfl⟩
  have foundInner : overlapSchema.membersOf "Settings" = .ok [{ name := "region" }] :=
    membersOf_eq_ok_iff.2 ⟨_, .last rfl rfl, by decide, rfl⟩
  have nested : overlapSchema.nestedGroup ⟨"settings", by decide⟩ ["Root"] (.record "Settings") =
      .ok (some ⟨"Settings", [⟨"region", .string, ⟨"settings.region", by decide⟩, none⟩]⟩) := by
    have made : overlapSchema.group (some ⟨"settings", by decide⟩) ["Root"] "Settings" =
        .ok ⟨"Settings", [⟨"region", .string, ⟨"settings.region", by decide⟩, none⟩]⟩ :=
      group_eq_ok_iff.2 ⟨by decide, _, foundInner, by decide, rfl,
        .cons ⟨rfl, rfl, memberReference_some_eq_ok_iff.2 rfl, rfl⟩ .nil⟩
    rw [nestedGroup, made]
    rfl
  exact accessors_eq_ok_iff.2 ⟨by decide, group_eq_ok_iff.2 ⟨by decide, _, found, by decide, rfl,
    .cons ⟨rfl, rfl, memberReference_none_eq_ok_iff.2 rfl, nested⟩
      (.cons ⟨rfl, rfl, memberReference_none_eq_ok_iff.2 rfl, rfl⟩ .nil)⟩⟩

/-- The schema has accessors, and two of them have the same reference. -/
theorem overlapGroup_repeats :
    overlapSchema.accessors "Root" = .ok overlapGroup ∧
      overlapGroup.references.map (·.path) =
        ["settings", "settings.region", "settings.region"] ∧
      ¬overlapGroup.references.Nodup :=
  ⟨accessors_overlapSchema, by decide, by decide⟩

/-- One of the records gives a path to two parameters, and one name goes on from another. -/
theorem nodup_references_iff_overlap :
    overlapSchema.accessors "Root" = .ok overlapGroup ∧
      (¬∀ record, overlapSchema.Reaches "Root" record → overlapSchema.PathsDiffer record) ∧
      ∃ record m m', overlapSchema.Reaches "Root" record ∧
        overlapSchema.HasParameter record m ∧ overlapSchema.HasParameter record m' ∧
        Continues m m' := by
  have repeated : ¬overlapGroup.references.Nodup := by decide
  obtain ⟨exact, culprits, _⟩ := nodup_references_iff accessors_overlapSchema
  exact ⟨accessors_overlapSchema, fun differ => repeated (exact.2 differ), culprits repeated⟩

end Schema

end AzurePipelines
