import AzurePipelines.Proofs.Schema.Consistency
import Mathlib

/-!
# Walks over schemas

A `Walk` makes the accessors of a schema one step at a time.  It holds the names of the records that
it is inside of, and the groups that wait for one below them.  It enters a record, climbs from base
to base and collects their members, visits the members in turn, which may lead it into another
record, and leaves.  Nothing in a single step says that there is a last one, since bases and members
may lead round in circles.

Started at any record of any schema, the walk comes to an end, and the end is what
`Schema.accessors` says; on the way it enters and climbs as `Schema.group` and `Schema.ancestry` do
(`Schema.walk_ends_within_bounds`).  At every step before, the names of the records around it differ
and all but the last are declared, so that no more groups are in the making than there are records
and one; and the bases that were climbed differ and are all declared.
-/

namespace AzurePipelines.Schema

/-! ## Walks -/

/-- A group in the making. -/
structure Visit where
  record : String
  parent : Option ParameterReference
  /-- The names of the parameters so far. -/
  seen : List String
  made : List Accessor
  /-- The members not looked at so far. -/
  todo : List Member

/-- The group with one more accessor. -/
def Visit.add (v : Visit) (m : Member) (reference : ParameterReference)
    (nested : Option AccessorGroup) : Visit :=
  { v with made := v.made ++ [⟨m.name, m.kind, reference, nested⟩] }

/-- A group that waits for the one below its member. -/
structure Frame where
  visit : Visit
  member : Member
  reference : ParameterReference

/-- What a walk does next. -/
inductive Activity where
  /-- A record is entered below the parameter `parent`. -/
  | entering (parent : Option ParameterReference) (record : String)
  /-- The record is climbed from base to base; `chain` holds the names behind, `found` their
  members. -/
  | climbing (parent : Option ParameterReference) (record : String) (chain : List String)
    (found : List Member) (next : Option String)
  | visiting (visit : Visit)
  | leaving (group : AccessorGroup)

/-- Where a walk stands. -/
structure Walk where
  /-- The names of the records that are not left, the outermost first. -/
  containing : List String
  /-- The groups around the one that is made, the innermost first. -/
  waiting : List Frame
  activity : Activity

/-- A walk is under way, or has ended in an answer. -/
inductive Progress where
  | underway (walk : Walk)
  | ended (answer : Except SchemaError AccessorGroup)

/-- One step of a walk. -/
def step (s : Schema) : Walk → Progress
  | ⟨containing, waiting, .entering parent record⟩ =>
    if record ∈ containing then .ended (.error (.fault (.containmentCycle record containing)))
    else .underway ⟨containing ++ [record], waiting, .climbing parent record [] [] (some record)⟩
  | ⟨containing, waiting, .climbing parent record chain found (some name)⟩ =>
    if name ∈ chain then .ended (.error (.fault (.inheritanceCycle chain name)))
    else
      match s.record? name with
      | none => .ended (.error (.fault (.unknownRecord name)))
      | some r => .underway ⟨containing, waiting,
          .climbing parent record (chain ++ [name]) (found ++ r.members) r.base⟩
  | ⟨containing, waiting, .climbing parent record _ found none⟩ =>
    .underway ⟨containing, waiting, .visiting ⟨record, parent, [], [], found⟩⟩
  | ⟨containing, waiting, .visiting ⟨record, parent, seen, made, m :: rest⟩⟩ =>
    if m.synthesized then
      .underway ⟨containing, waiting, .visiting ⟨record, parent, seen, made, rest⟩⟩
    else if m.serializedName ∈ seen then
      .ended (.error (.fault (.repeatedMember record m.serializedName)))
    else
      match memberReference parent m.serializedName with
      | .error e => .ended (.error (.reference e))
      | .ok reference =>
        let visit : Visit := ⟨record, parent, m.serializedName :: seen, made, rest⟩
        match m.kind with
        | .record name =>
          .underway ⟨containing, ⟨visit, m, reference⟩ :: waiting, .entering (some reference) name⟩
        | _ => .underway ⟨containing, waiting, .visiting (visit.add m reference none)⟩
  | ⟨containing, waiting, .visiting ⟨record, _, _, made, []⟩⟩ =>
    .underway ⟨containing.dropLast, waiting, .leaving ⟨record, made⟩⟩
  | ⟨containing, frame :: waiting, .leaving group⟩ =>
    .underway ⟨containing, waiting,
      .visiting (frame.visit.add frame.member frame.reference (some group))⟩
  | ⟨_, [], .leaving group⟩ => .ended (.ok group)

/-- The walk goes on for one step, unless it has ended. -/
def next (s : Schema) : Progress → Progress
  | .underway walk => s.step walk
  | .ended answer => .ended answer

/-- A walk starts outside of the root record, once all records have names of their own. -/
def start (s : Schema) (root : String) : Progress :=
  match repeatedRecord? [] s.records with
  | some name => .ended (.error (.fault (.repeatedRecord name)))
  | none => .underway ⟨[], [], .entering none root⟩

/-! ## The end of a walk -/

/-- The walk comes from one place to another. -/
def Passes (s : Schema) (here there : Progress) : Prop := ∃ n, s.next^[n] here = there

variable {s : Schema} {here middle there : Progress}

theorem Passes.refl (here : Progress) : s.Passes here here := ⟨0, rfl⟩

theorem Passes.trans (before : s.Passes here middle) (after : s.Passes middle there) :
    s.Passes here there := by
  obtain ⟨m, rfl⟩ := before
  obtain ⟨n, rfl⟩ := after
  exact ⟨n + m, Function.iterate_add_apply s.next n m here⟩

theorem Passes.head {walk : Walk} (first : s.step walk = middle) (after : s.Passes middle there) :
    s.Passes (.underway walk) there :=
  Passes.trans ⟨1, first⟩ after

theorem Passes.single {walk : Walk} (first : s.step walk = there) :
    s.Passes (.underway walk) there :=
  .head first (.refl there)

variable {containing seen : List String} {waiting : List Frame}
  {parent : Option ParameterReference} {record : String} {m : Member} {rest : List Member}

/-- Where a walk stands once it has climbed all bases. -/
def Progress.ofBases (containing : List String) (waiting : List Frame)
    (parent : Option ParameterReference) (record : String) (found : List Member) :
    Except SchemaFault (List Record) → Progress
  | .ok records => .underway ⟨containing, waiting,
      .visiting ⟨record, parent, [], [], found ++ records.flatMap (·.members)⟩⟩
  | .error fault => .ended (.error (.fault fault))

theorem passes_climbing (chain : List String) (name : String) (found : List Member) :
    s.Passes (.underway ⟨containing, waiting, .climbing parent record chain found (some name)⟩)
      (.ofBases containing waiting parent record found (s.ancestry chain name)) := by
  fun_induction ancestry s chain name generalizing found with
  | case1 chain name visited => exact .single (if_pos visited)
  | case2 chain name new undeclared =>
    apply Passes.single
    simp only [step, if_neg new, undeclared, Progress.ofBases]
  | case3 chain name new r declared ends =>
    have up : s.step ⟨containing, waiting, .climbing parent record chain found (some name)⟩ =
        .underway ⟨containing, waiting,
          .climbing parent record (chain ++ [name]) (found ++ r.members) none⟩ := by
      simp only [step, if_neg new, declared, ends]
    apply Passes.head up (.single _)
    simp only [step, Progress.ofBases, List.flatMap_singleton]
  | case4 chain name new r declared base goesOn ih =>
    have up : s.step ⟨containing, waiting, .climbing parent record chain found (some name)⟩ =
        .underway ⟨containing, waiting,
          .climbing parent record (chain ++ [name]) (found ++ r.members) (some base)⟩ := by
      simp only [step, if_neg new, declared, goesOn]
    have above := ih (found ++ r.members)
    cases bases : s.ancestry (chain ++ [name]) base with
    | error fault =>
      rw [bases] at above
      exact .head up above
    | ok records =>
      rw [bases, Progress.ofBases, List.append_assoc] at above
      exact .head up above

/-- Where a walk stands once the record that it was in is left, or has turned out to be at fault. -/
def Progress.ofGroup (containing : List String) (waiting : List Frame) :
    Except SchemaError AccessorGroup → Progress
  | .ok group => .underway ⟨containing, waiting, .leaving group⟩
  | .error e => .ended (.error e)

/-- Where a walk stands once it has visited all members of a record. -/
def Progress.ofMembers (containing : List String) (waiting : List Frame) (record : String)
    (made : List Accessor) : Except SchemaError (List Accessor) → Progress
  | .ok others => .underway ⟨containing.dropLast, waiting, .leaving ⟨record, made ++ others⟩⟩
  | .error e => .ended (.error e)

theorem Progress.ofMembers_append_singleton (made : List Accessor) (a : Accessor)
    (others : Except SchemaError (List Accessor)) :
    ofMembers containing waiting record (made ++ [a]) others =
      ofMembers containing waiting record made (others.map (a :: ·)) := by
  cases others with
  | error e => rfl
  | ok others => rw [Except.map, ofMembers, ofMembers, List.append_assoc, List.singleton_append]

/-- The walk through the group of each record below the members comes to an end. -/
def PassesBelow (s : Schema) (containing : List String) : Prop :=
  ∀ waiting reference inner,
    s.Passes (.underway ⟨containing, waiting, .entering (some reference) inner⟩)
      (.ofGroup containing waiting (s.group (some reference) containing inner))

/-- A member whose name is new has its accessor made, and the walk goes on with the other members,
unless the group below it is at fault. -/
theorem passes_member (below : s.PassesBelow containing) (given : m.synthesized = false)
    (new : m.serializedName ∉ seen) {reference : ParameterReference}
    (reached : memberReference parent m.serializedName = .ok reference) (made : List Accessor) :
    s.Passes (.underway ⟨containing, waiting, .visiting ⟨record, parent, seen, made, m :: rest⟩⟩)
      (match s.nestedGroup reference containing m.kind with
        | .error e => .ended (.error e)
        | .ok nested => .underway ⟨containing, waiting, .visiting ⟨record, parent,
            m.serializedName :: seen, made ++ [⟨m.name, m.kind, reference, nested⟩], rest⟩⟩) := by
  have first : s.step ⟨containing, waiting, .visiting ⟨record, parent, seen, made, m :: rest⟩⟩ =
      match m.kind with
      | .record name => .underway ⟨containing,
          ⟨⟨record, parent, m.serializedName :: seen, made, rest⟩, m, reference⟩ :: waiting,
          .entering (some reference) name⟩
      | kind => .underway ⟨containing, waiting, .visiting ⟨record, parent,
          m.serializedName :: seen, made ++ [⟨m.name, kind, reference, none⟩], rest⟩⟩ := by
    rw [step, given, if_neg Bool.false_ne_true, if_neg new, reached]
    cases kind : m.kind <;> simp only [Visit.add, kind]
  cases kind : m.kind with
  | record inner =>
    rw [kind] at first
    apply Passes.head first
    apply (below _ reference inner).trans
    rw [nestedGroup]
    cases s.group (some reference) containing inner with
    | error e => exact .refl _
    | ok group =>
      apply Passes.single
      simp only [step, Visit.add, kind, Except.map]
  | _ =>
    rw [kind] at first
    exact .single first

theorem passes_visiting (below : s.PassesBelow containing) (seen : List String)
    (made : List Accessor) (members : List Member) :
    s.Passes (.underway ⟨containing, waiting, .visiting ⟨record, parent, seen, made, members⟩⟩)
      (.ofMembers containing waiting record made
        (s.groupMembers parent containing record seen members)) := by
  induction members generalizing seen made with
  | nil =>
    apply Passes.single
    rw [groupMembers, Progress.ofMembers, List.append_nil, step]
  | cons m rest ih =>
    by_cases synthesized : m.synthesized = true
    · rw [groupMembers_synthesized synthesized]
      exact .head (if_pos synthesized) (ih seen made)
    rw [Bool.not_eq_true] at synthesized
    by_cases old : m.serializedName ∈ seen
    · rw [groupMembers_repeated synthesized old]
      apply Passes.single
      simp only [step, synthesized, Bool.false_eq_true, if_false, if_pos old, Progress.ofMembers]
    cases reached : memberReference parent m.serializedName with
    | error e =>
      rw [groupMembers_refused synthesized old reached]
      apply Passes.single
      simp only [step, synthesized, Bool.false_eq_true, if_false, if_neg old, reached,
        Progress.ofMembers]
    | ok reference =>
      rw [groupMembers_given synthesized old reached]
      apply (passes_member below synthesized old reached made).trans
      cases nested : s.nestedGroup reference containing m.kind with
      | error e => exact .refl _
      | ok group =>
        have others := ih (m.serializedName :: seen)
          (made ++ [⟨m.name, m.kind, reference, group⟩])
        rw [Progress.ofMembers_append_singleton] at others
        exact others

/-- The walk through a record, from entering it to leaving it, makes its group, and leaves the
records and groups around it as they were. -/
theorem passes_entering (parent : Option ParameterReference) (containing : List String)
    (record : String) (waiting : List Frame) :
    s.Passes (.underway ⟨containing, waiting, .entering parent record⟩)
      (.ofGroup containing waiting (s.group parent containing record)) := by
  by_cases visited : record ∈ containing
  · rw [group_visited visited]
    exact .single (if_pos visited)
  have enters : s.step ⟨containing, waiting, .entering parent record⟩ =
      .underway ⟨containing ++ [record], waiting, .climbing parent record [] [] (some record)⟩ :=
    if_neg visited
  apply (Passes.head enters (passes_climbing [] record [])).trans
  cases bases : s.ancestry [] record with
  | error fault =>
    have unreadable : s.membersOf record = .error fault := by rw [membersOf, bases, Except.map]
    rw [group_unreadable visited unreadable]
    exact .refl _
  | ok records =>
    have found : s.membersOf record = .ok (records.flatMap (·.members)) := by
      rw [membersOf, bases, Except.map]
    obtain ⟨r, declared⟩ := exists_record?_of_membersOf_eq_ok found
    have fewer := unvisited_append_lt declared visited
    have below : s.PassesBelow (containing ++ [record]) := fun waiting reference inner =>
      passes_entering (some reference) (containing ++ [record]) inner waiting
    apply (passes_visiting below [] [] _).trans
    rw [group_new visited found, List.nil_append]
    cases s.groupMembers parent (containing ++ [record]) record [] (records.flatMap (·.members))
      with
    | error e => exact .refl _
    | ok accessors =>
      simp only [Progress.ofMembers, List.dropLast_concat, List.nil_append]
      exact .refl _
termination_by s.unvisited containing

theorem passes_start (s : Schema) (root : String) :
    s.Passes (s.start root) (.ended (s.accessors root)) := by
  unfold start accessors
  cases repeatedRecord? [] s.records with
  | some name => exact .refl _
  | none =>
    apply (passes_entering none [] root []).trans
    cases s.group none [] root with
    | error e => exact .refl _
    | ok group => exact .single rfl

/-! ## The bounds of a walk -/

/-- The names of the declared records. -/
def recordNames (s : Schema) : List String := s.records.map (·.name)

/-- The bases behind a walk that climbs. -/
def Walk.chain (walk : Walk) : List String :=
  match walk.activity with
  | .climbing _ _ chain _ _ => chain
  | _ => []

/-- How deep a walk is: the groups that wait, and the one that is made. -/
def Walk.depth (walk : Walk) : Nat := walk.waiting.length + 1

/-- A walk is within the bounds of a schema. -/
structure Walk.IsWithin (walk : Walk) (s : Schema) : Prop where
  distinct : walk.containing.Nodup
  declared : walk.containing.dropLast ⊆ s.recordNames
  depth_le : walk.depth ≤ s.records.length + 1
  distinctBases : walk.chain.Nodup
  declaredBases : walk.chain ⊆ s.recordNames

/-- A walk under way is within the bounds of a schema. -/
def Progress.IsWithin (s : Schema) : Progress → Prop
  | .underway walk => walk.IsWithin s
  | .ended _ => True

/-- What every step of a walk keeps.  A record that is climbed has just been entered; if it is not
declared, this shows before the first of its bases is behind. -/
inductive Walk.Sound (s : Schema) : Walk → Prop
  | entering {containing : List String} {waiting : List Frame}
    {parent : Option ParameterReference} {record : String} :
    containing.Nodup → containing ⊆ s.recordNames → containing.length = waiting.length →
    Sound s ⟨containing, waiting, .entering parent record⟩
  | climbing {containing chain : List String} {waiting : List Frame}
    {parent : Option ParameterReference} {record : String} {found : List Member}
    {next : Option String} :
    (containing ++ [record]).Nodup → containing ⊆ s.recordNames →
    containing.length = waiting.length → chain.Nodup → chain ⊆ s.recordNames →
    next = some record ∨ record ∈ s.recordNames →
    Sound s ⟨containing ++ [record], waiting, .climbing parent record chain found next⟩
  | visiting {containing : List String} {waiting : List Frame} {visit : Visit} :
    containing.Nodup → containing ⊆ s.recordNames → containing.length = waiting.length + 1 →
    Sound s ⟨containing, waiting, .visiting visit⟩
  | leaving {containing : List String} {waiting : List Frame} {group : AccessorGroup} :
    containing.Nodup → containing ⊆ s.recordNames → containing.length = waiting.length →
    Sound s ⟨containing, waiting, .leaving group⟩

/-- A walk under way is sound. -/
def Progress.Sound (s : Schema) : Progress → Prop
  | .underway walk => walk.Sound s
  | .ended _ => True

/-- No more names are declared than records, and no more groups wait than names are behind. -/
theorem depth_le {names containing : List String} {waiting : List Frame} {activity : Activity}
    (distinct : names.Nodup) (declared : names ⊆ s.recordNames)
    (behind : waiting.length ≤ names.length) :
    Walk.depth ⟨containing, waiting, activity⟩ ≤ s.records.length + 1 := by
  have fits := (List.subperm_of_subset distinct declared).length_le
  rw [recordNames, List.length_map] at fits
  rw [Walk.depth]
  exact Nat.succ_le_succ (behind.trans fits)

theorem Walk.Sound.isWithin {walk : Walk} (sound : walk.Sound s) : walk.IsWithin s := by
  cases sound with
  | entering distinct declared length =>
    exact ⟨distinct, fun _ met => declared (List.mem_of_mem_dropLast met),
      depth_le distinct declared length.ge, .nil, List.nil_subset _⟩
  | climbing distinct declared length distinctChain declaredChain =>
    exact ⟨distinct, by rwa [List.dropLast_concat],
      depth_le distinct.of_append_left declared length.ge, distinctChain, declaredChain⟩
  | visiting distinct declared length =>
    exact ⟨distinct, fun _ met => declared (List.mem_of_mem_dropLast met),
      depth_le distinct declared (Nat.le_of_succ_le length.ge), .nil, List.nil_subset _⟩
  | leaving distinct declared length =>
    exact ⟨distinct, fun _ met => declared (List.mem_of_mem_dropLast met),
      depth_le distinct declared length.ge, .nil, List.nil_subset _⟩

theorem nodup_append_singleton {names : List String} {name : String} (distinct : names.Nodup)
    (new : name ∉ names) : (names ++ [name]).Nodup := by
  rw [← List.concat_eq_append]
  exact distinct.concat new

theorem append_singleton_subset {names all : List String} {name : String} (subset : names ⊆ all)
    (member : name ∈ all) : names ++ [name] ⊆ all :=
  List.append_subset.2 ⟨subset, List.cons_subset.2 ⟨member, List.nil_subset all⟩⟩

theorem mem_recordNames_of_record?_eq_some {name : String} {r : Record}
    (declared : s.record? name = some r) : name ∈ s.recordNames := by
  obtain ⟨member, rfl⟩ := mem_of_record?_eq_some declared
  exact List.mem_map_of_mem member

theorem Walk.Sound.step {walk : Walk} (sound : walk.Sound s) : (s.step walk).Sound s := by
  cases sound with
  | @entering containing waiting parent record distinct declared length =>
    rw [Schema.step]
    split
    · trivial
    · rename_i new
      exact .climbing (nodup_append_singleton distinct new) declared length .nil
        (List.nil_subset _) (.inl rfl)
  | @climbing containing chain waiting parent record found next distinct declared length
      distinctChain declaredChain known =>
    cases next with
    | none =>
      have declaredAll := append_singleton_subset declared (known.resolve_left nofun)
      exact .visiting distinct declaredAll (by rw [List.length_append, length]; rfl)
    | some name =>
      rw [Schema.step]
      split
      · trivial
      rename_i new
      split
      · trivial
      rename_i r isDeclared
      have inNames := mem_recordNames_of_record?_eq_some isDeclared
      refine .climbing distinct declared length (nodup_append_singleton distinctChain new)
        (append_singleton_subset declaredChain inNames) (.inr ?_)
      rcases known with same | known
      · exact Option.some.inj same ▸ inNames
      · exact known
  | @visiting containing waiting visit distinct declared length =>
    obtain ⟨record, parent, seen, made, todo⟩ := visit
    cases todo with
    | nil =>
      exact .leaving (distinct.sublist (List.dropLast_sublist _))
        (fun _ met => declared (List.mem_of_mem_dropLast met))
        (by rw [List.length_dropLast, length]; rfl)
    | cons m rest =>
      rw [Schema.step]
      split
      · exact .visiting distinct declared length
      split
      · trivial
      split
      · trivial
      split
      · exact .entering distinct declared length
      · exact .visiting distinct declared length
  | @leaving containing waiting group distinct declared length =>
    cases waiting with
    | nil => trivial
    | cons frame waiting => exact .visiting distinct declared length

theorem Progress.Sound.iterate_next {p : Progress} (sound : p.Sound s) (n : Nat) :
    (s.next^[n] p).Sound s := by
  induction n with
  | zero => exact sound
  | succ n ih =>
    rw [Function.iterate_succ_apply']
    cases stands : s.next^[n] p with
    | ended answer => trivial
    | underway walk =>
      rw [stands] at ih
      exact Walk.Sound.step ih

theorem Progress.Sound.isWithin {p : Progress} (sound : p.Sound s) : p.IsWithin s := by
  cases p with
  | ended answer => trivial
  | underway walk => exact Walk.Sound.isWithin sound

theorem sound_start (s : Schema) (root : String) : (s.start root).Sound s := by
  unfold start
  split
  · trivial
  · exact .entering .nil (List.nil_subset _) rfl

/-- Where all records have names of their own, the walk starts by entering the root record. -/
theorem start_eq_entering (distinct : s.recordNames.Nodup) (root : String) :
    s.start root = .underway ⟨[], [], .entering none root⟩ := by
  have unrepeated : repeatedRecord? [] s.records = none :=
    repeatedRecord?_eq_none_iff.2 ⟨distinct, fun _ _ => List.not_mem_nil⟩
  rw [start, unrepeated]

/-- **The accessors of every schema are made in finitely many steps**, however bases and members
lead back to one another.  At every step the names of the records around the walk differ, and all
but the last are declared; no more groups are in the making than there are records and one; and the
bases that were climbed differ and are declared.

The walk is the one that `Schema.group` and `Schema.ancestry` describe: where records have names of
their own it starts by entering the root, from a record that it enters it comes to the group of this
record or to its fault, and from a record that it climbs to the bases or to their fault. -/
theorem walk_ends_within_bounds (s : Schema) (root : String) :
    (∃ n, s.next^[n] (s.start root) = .ended (s.accessors root)) ∧
      (∀ n, (s.next^[n] (s.start root)).IsWithin s) ∧
      (s.recordNames.Nodup → s.start root = .underway ⟨[], [], .entering none root⟩) ∧
      (∀ containing waiting parent record,
        s.Passes (.underway ⟨containing, waiting, .entering parent record⟩)
          (.ofGroup containing waiting (s.group parent containing record))) ∧
      ∀ containing waiting parent record chain name found,
        s.Passes
          (.underway ⟨containing, waiting, .climbing parent record chain found (some name)⟩)
          (.ofBases containing waiting parent record found (s.ancestry chain name)) := by
  refine ⟨passes_start s root, fun n => ?_, fun distinct => start_eq_entering distinct root,
    fun containing waiting parent record => passes_entering parent containing record waiting,
    fun _ _ _ _ chain name found => passes_climbing chain name found⟩
  exact ((sound_start s root).iterate_next n).isWithin

end AzurePipelines.Schema
