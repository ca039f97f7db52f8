import AzurePipelines.Proofs.Schema.Collisions
import AzurePipelines.Proofs.Schema.SourceText
import Mathlib

/-!
# Lines of generated code

`codeLines` lists the lines of a text that are no comments.  Below the root, the name of a record is
written into one comment only, and it names no type and no method: so two trees that differ in such
names (`AccessorGroup.SameButNames`) are refused alike, and the code that is generated for them is
laid out alike, position by position.

A line feed in the name ends the comment, though.  What follows may be code, which `strayLines`
lists, and exactly with such lines the code of two trees differs
(`AccessorGroup.codeLines_source_eq_iff`).
-/

namespace AzurePipelines

/-! ## Lines of code -/

/-- The line is a comment, behind spaces. -/
def isCommentLine (line : List Char) : Bool := "//".toList.isPrefixOf (line.dropWhile (· == ' '))

/-- The lines of a text, without those that are comments. -/
def codeLines (text : List Char) : List (List Char) :=
  (Text.lines text).filter (!isCommentLine ·)

/-- The lines of code that the name of a record adds to the comment that it stands in. -/
def strayLines (record : String) : List (List Char) :=
  (Text.lines (record.toList ++ ['`'])).tail.filter (!isCommentLine ·)

/-- A line feed ends a line wherever it stands. -/
theorem codeLines_append_feed (above below : List Char) :
    codeLines (above ++ '\n' :: below) = codeLines above ++ codeLines below := by
  unfold codeLines Text.lines
  rw [Text.pieces_append_cons, List.filter_append]

/-- Of a comment, only the lines after its first may be code. -/
theorem codeLines_comment {start : List Char} (oneLine : '\n' ∉ start) (text : List Char) :
    codeLines ('/' :: '/' :: (start ++ text)) =
      (Text.lines text).tail.filter (!isCommentLine ·) := by
  have comment (line : List Char) : isCommentLine ('/' :: '/' :: line) = true := by
    simp [isCommentLine]
  have inside : '\n' ∉ '/' :: '/' :: start := by simpa using oneLine
  rw [codeLines, ← List.cons_append, ← List.cons_append, Text.lines,
    Text.pieces_append_of_notMem inside, Text.lines]
  cases Text.pieces '\n' text with
  | nil => rfl
  | cons line others =>
    rw [List.modifyHead_cons, List.cons_append, List.cons_append,
      List.filter_cons_of_neg (by simp [comment]), List.tail_cons]

/-- A name without a line feed adds no code. -/
theorem strayLines_eq_nil {record : String} (oneLine : '\n' ∉ record.toList) :
    strayLines record = [] := by
  have closing : Text.pieces '\n' ['`'] = [['`']] := rfl
  rw [strayLines, Text.lines, Text.pieces_append_of_notMem oneLine, closing]
  rfl

/-! ## Lines of declared types -/

/-- What is written of a type below the comment that names its record, up to the last line feed. -/
def TypeDeclaration.body (d : TypeDeclaration) : String :=
  "#[derive(Debug, Clone, Copy, Default)]\n" ++ "pub struct " ++ d.name ++ ";\n\nimpl " ++ d.name ++
    " \x7b\n" ++ "\n".intercalate (d.methods.map Method.source) ++ "\x7d"

theorem TypeDeclaration.body_congr {d e : TypeDeclaration} (name : d.name = e.name)
    (methods : d.methods = e.methods) : d.body = e.body := by
  unfold body
  rw [name, methods]

/-- The lines of code of a type, where the name of the record adds some to its comment. -/
def TypeDeclaration.code (d : TypeDeclaration) : List (List Char) :=
  [] :: (strayLines d.record ++ codeLines d.body.toList)

theorem TypeDeclaration.toList_source (d : TypeDeclaration) :
    d.source.toList = '\n' :: ('/' :: '/' :: ("/ Parameters of record `".toList ++
      (d.record.toList ++ ['`'])) ++ '\n' :: (d.body.toList ++ ['\n'])) := by
  have opening : "\n/// Parameters of record `".toList =
      '\n' :: '/' :: '/' :: "/ Parameters of record `".toList := rfl
  have closing : "`\n#[derive(Debug, Clone, Copy, Default)]\n".toList =
      '`' :: '\n' :: "#[derive(Debug, Clone, Copy, Default)]\n".toList := rfl
  have last : "\x7d\n".toList = "\x7d".toList ++ ['\n'] := rfl
  unfold source body
  simp only [String.toList_append, opening, closing, last, List.append_assoc, List.cons_append,
    List.nil_append]

theorem TypeDeclaration.codeLines_source_append (d : TypeDeclaration) (below : List Char) :
    codeLines (d.source.toList ++ below) = d.code ++ codeLines below := by
  have blank : codeLines [] = [[]] := rfl
  have parts : d.source.toList ++ below = [] ++ '\n' ::
      ('/' :: '/' :: ("/ Parameters of record `".toList ++ (d.record.toList ++ ['`'])) ++ '\n' ::
        (d.body.toList ++ '\n' :: below)) := by
    rw [toList_source]
    simp only [List.append_assoc, List.cons_append, List.nil_append]
  rw [parts, codeLines_append_feed, codeLines_append_feed, codeLines_append_feed, blank,
    codeLines_comment (by decide), code, strayLines]
  simp only [List.append_assoc, List.cons_append, List.nil_append]

theorem codeLines_flatMap_source (types : List TypeDeclaration) :
    codeLines (types.flatMap (·.source.toList)) = types.flatMap (·.code) ++ [[]] := by
  induction types with
  | nil => rfl
  | cons d types ih =>
    rw [List.flatMap_cons, d.codeLines_source_append, ih, List.flatMap_cons, List.append_assoc]

/-- What is written between the name of the root and the types, up to the last line feed. -/
def notice : String :=
  "`\n// Generated by azpipe; do not edit by hand\n\nuse pipeline_core::ParameterReference;"

/-- What is written above the types, up to the last line feed. -/
def preamble (record : String) : List Char :=
  "// Parameter accessors for `".toList ++ record.toList ++ notice.toList

/-- The lines of code of a source are those above the types and those of the types, in order. -/
theorem AccessorGroup.codeLines_source {g : AccessorGroup} {source : String}
    (made : g.source = .ok source) : codeLines source.toList =
      codeLines (preamble g.record) ++
        (g.positions.flatMap (fun p => (p.declaration g.record).code) ++ [[]]) := by
  obtain ⟨types, declared, made⟩ := exists_of_bind_eq_ok made
  obtain ⟨rfl, -⟩ := declarations_eq_ok declared
  obtain rfl := Except.ok.inj made
  have last :
      "`\n// Generated by azpipe; do not edit by hand\n\nuse pipeline_core::ParameterReference;\n" =
        notice ++ "\n" := by decide +kernel
  have feed : "\n".toList = ['\n'] := rfl
  rw [← List.flatMap_map, ← codeLines_flatMap_source, ← codeLines_append_feed]
  unfold preamble
  generalize "// Parameter accessors for `" = opening
  rw [last]
  simp only [String.toList_append, String.toList_join, feed, List.append_assoc,
    List.singleton_append, List.flatMap_map]

/-- What a name adds to its comment is code. -/
theorem AccessorGroup.strayLines_subset {g : AccessorGroup} {source : String}
    (made : g.source = .ok source) {p : Position} (mem : p ∈ g.positions) :
    strayLines p.group.record ⊆ codeLines source.toList := by
  intro line inComment
  rw [codeLines_source made]
  refine List.mem_append_right _ (List.mem_append_left _ (List.mem_flatMap.2 ⟨p, mem, ?_⟩))
  exact List.mem_cons_of_mem _ (List.mem_append_left _ inComment)

/-! ## Names of records below the root -/

mutual

/-- The group without the names of its records. -/
def AccessorGroup.nameless : AccessorGroup → AccessorGroup
  | ⟨_, members⟩ => ⟨"", namelessMembers members⟩

def namelessMembers : List Accessor → List Accessor
  | [] => []
  | accessor :: rest => accessor.nameless :: namelessMembers rest

def Accessor.nameless : Accessor → Accessor
  | ⟨member, kind, reference, nested⟩ => ⟨member, kind, reference, namelessNested nested⟩

def namelessNested : Option AccessorGroup → Option AccessorGroup
  | none => none
  | some group => some group.nameless

end

theorem namelessMembers_eq_map (members : List Accessor) :
    namelessMembers members = members.map Accessor.nameless := by
  induction members with
  | nil => rfl
  | cons accessor rest ih => rw [namelessMembers, ih, List.map_cons]

/-- Two trees differ at most in the names of records below the root. -/
structure AccessorGroup.SameButNames (g h : AccessorGroup) : Prop where
  record : g.record = h.record
  nameless : g.nameless = h.nameless

/-- The position without the names of the records of its group. -/
def Position.nameless (p : Position) : Position := ⟨p.members, p.parameter, p.group.nameless⟩

mutual

theorem groupPositions_nameless (way : List String) (parameter : Option ParameterReference) :
    ∀ g : AccessorGroup, groupPositions way parameter g.nameless =
      (groupPositions way parameter g).map Position.nameless
  | ⟨record, members⟩ => by
    rw [AccessorGroup.nameless, groupPositions, groupPositions, List.map_cons,
      memberPositions_nameless way members]
    rfl

theorem memberPositions_nameless (way : List String) : ∀ members : List Accessor,
    memberPositions way (namelessMembers members) =
      (memberPositions way members).map Position.nameless
  | [] => rfl
  | accessor :: rest => by
    rw [namelessMembers, memberPositions, memberPositions, List.map_append,
      accessorPositions_nameless way accessor, memberPositions_nameless way rest]

theorem accessorPositions_nameless (way : List String) : ∀ accessor : Accessor,
    accessorPositions way accessor.nameless =
      (accessorPositions way accessor).map Position.nameless
  | ⟨_, _, _, none⟩ => rfl
  | ⟨member, kind, reference, some group⟩ => by
    rw [Accessor.nameless, namelessNested, accessorPositions, accessorPositions, nestedPositions,
      nestedPositions, groupPositions_nameless (way ++ [member]) (some reference) group]

end

theorem AccessorGroup.members_nameless (g : AccessorGroup) :
    g.nameless.members = g.members.map Accessor.nameless := by
  obtain ⟨record, members⟩ := g
  rw [nameless, namelessMembers_eq_map]

theorem Accessor.member_nameless (a : Accessor) : a.nameless.member = a.member := by
  obtain ⟨member, kind, reference, nested⟩ := a
  rfl

theorem memberMethod_nameless (stem : String) (a : Accessor) :
    memberMethod stem a.nameless = memberMethod stem a := by
  obtain ⟨member, kind, reference, nested⟩ := a
  cases nested <;> rfl

theorem Position.methodNames_nameless (p : Position) : p.nameless.methodNames = p.methodNames := by
  unfold methodNames nameless
  rw [AccessorGroup.members_nameless, List.map_map]
  refine congrArg _ (List.map_congr_left fun a _ => ?_)
  rw [Function.comp_apply, Accessor.member_nameless]

theorem Position.methods_declaration_nameless (root : String) (p : Position) :
    (p.nameless.declaration root).methods = (p.declaration root).methods := by
  have same (stem : String) : memberMethod stem ∘ Accessor.nameless = memberMethod stem :=
    funext fun a => memberMethod_nameless stem a
  simp only [declaration, nameless, AccessorGroup.members_nameless, List.map_map, same]

/-- A type is written alike below the comment, however the records are called. -/
theorem Position.body_declaration_nameless (root : String) (p : Position) :
    (p.nameless.declaration root).body = (p.declaration root).body :=
  TypeDeclaration.body_congr rfl (p.methods_declaration_nameless root)

theorem AccessorGroup.positions_nameless (g : AccessorGroup) :
    g.nameless.positions = g.positions.map Position.nameless :=
  groupPositions_nameless [] none g

/-- The positions differ at most in the names of records, and not in that of the root. -/
structure Position.SameButNames (p q : Position) : Prop where
  nameless : p.nameless = q.nameless
  root : p.parameter = none → p.group.record = q.group.record

theorem Position.SameButNames.parameter {p q : Position} (same : p.SameButNames q) :
    p.parameter = q.parameter := by
  have parameters := congrArg Position.parameter same.nameless
  exact parameters

theorem Position.SameButNames.body {p q : Position} (same : p.SameButNames q) (root : String) :
    (p.declaration root).body = (q.declaration root).body := by
  rw [← p.body_declaration_nameless, same.nameless, q.body_declaration_nameless]

theorem parameter_ne_none_of_mem_memberPositions {way : List String} {members : List Accessor}
    {p : Position} (mem : p ∈ memberPositions way members) : p.parameter ≠ none := by
  obtain ⟨_, a, _, _, _, rfl⟩ := exists_at_of_mem_memberPositions "" mem
  exact Option.some_ne_none a.reference

theorem AccessorGroup.SameButNames.positions_nameless {g h : AccessorGroup}
    (same : g.SameButNames h) :
    g.positions.map Position.nameless = h.positions.map Position.nameless := by
  rw [← g.positions_nameless, ← h.positions_nameless, same.nameless]

theorem AccessorGroup.SameButNames.positions {g h : AccessorGroup} (same : g.SameButNames h) :
    List.Forall₂ Position.SameButNames g.positions h.positions := by
  have nameless := same.positions_nameless
  unfold AccessorGroup.positions at *
  rw [groupPositions_eq, groupPositions_eq] at *
  obtain ⟨first, others⟩ := List.cons.inj nameless
  refine .cons ⟨first, fun _ => same.record⟩ ?_
  rw [← List.forall₂_eq_eq_eq, List.forall₂_map_left_iff, List.forall₂_map_right_iff] at others
  have below := (List.forall₂_and_left _ _).2
    ⟨fun p => parameter_ne_none_of_mem_memberPositions (p := p), others⟩
  exact below.imp fun p q pair => ⟨pair.2, fun atRoot => absurd atRoot pair.1⟩

/-- The names of types and methods do not depend on those of nested records. -/
theorem AccessorGroup.SameButNames.namesDiffer {g h : AccessorGroup} (same : g.SameButNames h)
    (differ : g.NamesDiffer) : h.NamesDiffer := by
  have nameless := same.positions_nameless
  constructor
  · have types := congrArg (List.map fun p => h.typeAt p.members) nameless
    rw [List.map_map, List.map_map] at types
    refine (congrArg List.Nodup (Eq.trans ?_ types)).mp differ.types
    refine List.map_congr_left fun p _ => ?_
    rw [typeAt, same.record]
    rfl
  · intro q mem
    obtain ⟨p, inFirst, pair⟩ := List.mem_map.1 (nameless ▸ List.mem_map_of_mem mem)
    rw [← q.methodNames_nameless, ← pair, p.methodNames_nameless]
    exact differ.methods p inFirst

/-! ## Code below names -/

/-- Below the root, the name of the record adds no code. -/
def Position.Quiet (p : Position) : Prop :=
  p.parameter.isSome = true → strayLines p.group.record = []

/-- The code of a type is there, whatever the record is called, and nothing else is exactly where
the name adds no code. -/
theorem Position.SameButNames.code {p q : Position} (same : p.SameButNames q) (quiet : q.Quiet)
    (root : String) :
    (q.declaration root).code.Sublist (p.declaration root).code ∧
      ((p.declaration root).code = (q.declaration root).code ↔ p.Quiet) := by
  have records (r : Position) : (r.declaration root).record = r.group.record := rfl
  have parameters := same.parameter
  unfold TypeDeclaration.code Quiet at *
  rw [same.body root, records, records]
  cases below : p.parameter with
  | none =>
    rw [same.root below]
    exact ⟨List.Sublist.refl _, iff_of_true rfl nofun⟩
  | some r =>
    rw [below] at parameters
    rw [quiet (by rw [← parameters]; rfl), List.nil_append]
    refine ⟨(List.sublist_append_right _ _).cons_cons _, ?_⟩
    simp

/-- Parts that are kept in order make wholes that are, and these agree where all the parts do. -/
theorem append_eq_append_iff_of_sublist {α : Type} {a a' b b' : List α} (first : a'.Sublist a)
    (second : b'.Sublist b) : a ++ b = a' ++ b' ↔ a = a' ∧ b = b' := by
  refine ⟨fun whole => ?_, fun ⟨left, right⟩ => left ▸ right ▸ rfl⟩
  have lengths := congrArg List.length whole
  rw [List.length_append, List.length_append] at lengths
  have shorter := first.length_le
  have shorter' := second.length_le
  exact List.append_inj whole (by omega)

theorem flatMap_code (root : String) {positions others : List Position}
    (same : List.Forall₂ Position.SameButNames positions others) (quiet : ∀ q ∈ others, q.Quiet) :
    (others.flatMap fun q => (q.declaration root).code).Sublist
        (positions.flatMap fun p => (p.declaration root).code) ∧
      ((positions.flatMap fun p => (p.declaration root).code) =
          others.flatMap (fun q => (q.declaration root).code) ↔ ∀ p ∈ positions, p.Quiet) := by
  induction same with
  | nil => simp
  | @cons p q positions others pair _ ih =>
    obtain ⟨head, tail⟩ := List.forall_mem_cons.1 quiet
    obtain ⟨code, exact⟩ := pair.code head root
    obtain ⟨codes, exacts⟩ := ih tail
    rw [List.flatMap_cons, List.flatMap_cons]
    refine ⟨code.append codes, ?_⟩
    rw [append_eq_append_iff_of_sublist code codes, exact, exacts, List.forall_mem_cons]

namespace AccessorGroup

/-- Where one of two trees has names that add no code, the code of the other has all of its lines,
and no more exactly if its names add none either. -/
theorem SameButNames.codeLines_source {g h : AccessorGroup} (same : g.SameButNames h)
    {source other : String} (made : g.source = .ok source) (made' : h.source = .ok other)
    (quiet : ∀ q ∈ h.positions, q.Quiet) :
    (codeLines other.toList).Sublist (codeLines source.toList) ∧
      (codeLines source.toList = codeLines other.toList ↔ ∀ p ∈ g.positions, p.Quiet) := by
  obtain ⟨kept, exact⟩ := flatMap_code h.record same.positions quiet
  rw [AccessorGroup.codeLines_source made, AccessorGroup.codeLines_source made', same.record]
  refine ⟨(List.Sublist.refl _).append (kept.append (List.Sublist.refl _)), ?_⟩
  rw [List.append_cancel_left_eq, List.append_cancel_right_eq, exact]

/-- Trees that differ in the names of nested records are refused alike, and generated code differs
exactly where a name adds lines of its own to the comment that it stands in. -/
theorem codeLines_source_eq_iff {g h : AccessorGroup} (same : g.SameButNames h) :
    ((∃ source, g.source = .ok source) ↔ ∃ source, h.source = .ok source) ∧
      ∀ source other, g.source = .ok source → h.source = .ok other →
        (∀ q ∈ h.positions, q.Quiet) →
          (codeLines other.toList).Sublist (codeLines source.toList) ∧
            (codeLines source.toList = codeLines other.toList ↔ ∀ p ∈ g.positions, p.Quiet) := by
  have reverse : h.SameButNames g := ⟨same.record.symm, same.nameless.symm⟩
  refine ⟨?_, fun source other made made' quiet => same.codeLines_source made made' quiet⟩
  rw [exists_source_iff, exists_source_iff]
  exact ⟨same.namesDiffer, reverse.namesDiffer⟩

/-- A tree with a record of this name below the root. -/
def nestedRecord (record : String) : AccessorGroup :=
  ⟨"A", [⟨"b", .record "X", ⟨"b", by decide⟩, some ⟨record, []⟩⟩]⟩

theorem positions_nestedRecord (record : String) : (nestedRecord record).positions =
    [⟨[], none, nestedRecord record⟩, ⟨["b"], some ⟨"b", by decide⟩, ⟨record, []⟩⟩] := rfl

theorem forall_quiet_nestedRecord {record : String} :
    (∀ p ∈ (nestedRecord record).positions, p.Quiet) ↔ strayLines record = [] := by
  rw [positions_nestedRecord, List.forall_mem_cons, List.forall_mem_singleton]
  exact ⟨fun quiet => quiet.2 rfl, fun none => ⟨nofun, fun _ => none⟩⟩

/-- A line that is a comment itself adds no code. -/
theorem codeLines_source_eq_iff_nestedRecord :
    (nestedRecord "X\n// of b").SameButNames (nestedRecord "X") ∧
      (∀ q ∈ (nestedRecord "X").positions, q.Quiet) ∧
      ∃ source other, (nestedRecord "X\n// of b").source = .ok source ∧
        (nestedRecord "X").source = .ok other ∧
        (codeLines other.toList).Sublist (codeLines source.toList) ∧
        codeLines source.toList = codeLines other.toList := by
  have same : (nestedRecord "X\n// of b").SameButNames (nestedRecord "X") := ⟨rfl, rfl⟩
  have plain : '\n' ∉ "X".toList := by decide
  have quiet := forall_quiet_nestedRecord.2 (strayLines_eq_nil plain)
  have stray : strayLines "X\n// of b" = [] := by decide
  have commented := forall_quiet_nestedRecord.2 stray
  obtain ⟨alike, lines⟩ := codeLines_source_eq_iff same
  obtain ⟨other, made'⟩ : ∃ other, (nestedRecord "X").source = .ok other := ⟨_, rfl⟩
  obtain ⟨source, made⟩ := alike.2 ⟨other, made'⟩
  obtain ⟨kept, exact⟩ := lines source other made made' quiet
  exact ⟨same, quiet, source, other, made, made', kept, exact.2 commented⟩

/-- The name of a nested record declares a type of its own. -/
theorem nestedRecord_addsCode :
    (nestedRecord "X\npub struct Y;\n//").SameButNames (nestedRecord "X") ∧
      ∃ source other, (nestedRecord "X\npub struct Y;\n//").source = .ok source ∧
        (nestedRecord "X").source = .ok other ∧
        "pub struct Y;".toList ∈ codeLines source.toList ∧
        codeLines source.toList ≠ codeLines other.toList := by
  have same : (nestedRecord "X\npub struct Y;\n//").SameButNames (nestedRecord "X") := ⟨rfl, rfl⟩
  have plain : '\n' ∉ "X".toList := by decide
  have quiet := forall_quiet_nestedRecord.2 (strayLines_eq_nil plain)
  have stray : strayLines "X\npub struct Y;\n//" = ["pub struct Y;".toList] := by decide
  obtain ⟨source, made⟩ : ∃ source, (nestedRecord "X\npub struct Y;\n//").source = .ok source :=
    ⟨_, rfl⟩
  obtain ⟨other, made'⟩ : ∃ other, (nestedRecord "X").source = .ok other := ⟨_, rfl⟩
  obtain ⟨-, exact⟩ := same.codeLines_source made made' quiet
  have nested : ⟨["b"], some ⟨"b", by decide⟩, ⟨"X\npub struct Y;\n//", []⟩⟩ ∈
      (nestedRecord "X\npub struct Y;\n//").positions := by
    rw [positions_nestedRecord]
    exact List.mem_cons_of_mem _ List.mem_cons_self
  refine ⟨same, source, other, made, made', ?_, fun equal => ?_⟩
  · exact strayLines_subset made nested (stray ▸ List.mem_cons_self)
  · exact absurd (forall_quiet_nestedRecord.1 (exact.1 equal)) (stray ▸ List.cons_ne_nil _ _)

end AccessorGroup

end AzurePipelines
