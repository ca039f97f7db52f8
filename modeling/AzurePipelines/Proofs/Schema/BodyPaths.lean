import AzurePipelines.CommandLine.Accessors
import AzurePipelines.Proofs.Schema.Calls
import AzurePipelines.Proofs.Schema.CodeLines
import Mathlib

/-!
# Paths of generated code

A tree of accessors is listed with the paths of its references, each before those below it, and the
bodies of the methods that are generated for it make references too.  The type of a group makes them
in another order: the parameter that the group is below, then those of its own accessors, and only
then come the types of the groups below.  `madePaths` finds them in the text of a source, outside
its comments, and `Code.pathsOf` in what is read of it.

Each reference of the tree is made once, and no other, exactly if no record has behind a line feed
in its name a text that makes one (`AccessorGroup.madePaths_perm_iff`).
-/

namespace AzurePipelines

/-! ## References that are made in a text -/

/-- What stands before the path wherever a reference is made. -/
def makesReference : List Char := "ParameterReference::new(\"".toList

/-- The paths of the references that are made in a line. -/
def pathsInLine : List Char → List String
  | [] => []
  | c :: text =>
    if makesReference.isPrefixOf (c :: text) then
      String.ofList (((c :: text).drop makesReference.length).takeWhile (· != '"')) ::
        pathsInLine text
    else pathsInLine text

/-- The paths of the references that are made in a text, outside of comments. -/
def madePaths (text : List Char) : List String := (codeLines text).flatMap pathsInLine

/-- The paths of the references that are made behind a line feed in the name of a record. -/
def recordPaths (record : String) : List String := (strayLines record).flatMap pathsInLine

theorem pathsInLine_of_notMem {line : List Char} (plain : ':' ∉ line) : pathsInLine line = [] := by
  induction line with
  | nil => rfl
  | cons c line ih =>
    rw [List.mem_cons, not_or] at plain
    have other : ¬makesReference.isPrefixOf (c :: line) = true := by
      intro start
      have colon : ':' ∈ c :: line :=
        (List.isPrefixOf_iff_prefix.1 start).subset (by decide)
      rcases List.mem_cons.1 colon with same | later
      · exact plain.1 same
      · exact plain.2 later
    rw [pathsInLine, if_neg other, ih plain.2]

theorem madePaths_append_feed (above below : List Char) :
    madePaths (above ++ '\n' :: below) = madePaths above ++ madePaths below := by
  rw [madePaths, codeLines_append_feed, List.flatMap_append]
  rfl

theorem madePaths_of_notMem {text : List Char} (plain : ':' ∉ text) : madePaths text = [] := by
  rw [madePaths, List.flatMap_eq_nil_iff]
  intro line mem
  have inText := (List.mem_filter.1 mem).1
  exact pathsInLine_of_notMem fun colon => plain (Text.mem_of_mem_pieces inText colon)

/-- A text of one line is a comment, or one line of code. -/
theorem madePaths_of_oneLine {line : List Char} (oneLine : '\n' ∉ line) :
    madePaths line = if isCommentLine line then [] else pathsInLine line := by
  have lines : Text.lines line = [line] := Text.pieces_of_notMem oneLine
  rw [madePaths, codeLines, lines]
  cases remark : isCommentLine line <;> simp [remark]

/-! ### Methods -/

/-- The path of the reference that a method gives. -/
def Code.Result.path? : Code.Result → Option String
  | .reference path => some path
  | .value _ => none

theorem madePaths_comment {comment : List Char} (oneLine : '\n' ∉ comment) :
    madePaths ("    /// ".toList ++ comment) = [] := by
  have inside : '\n' ∉ "    /// ".toList ++ comment := by
    rw [List.mem_append, not_or]
    exact ⟨by decide, oneLine⟩
  have remark : isCommentLine ("    /// ".toList ++ comment) = true := rfl
  rw [madePaths_of_oneLine inside, if_pos remark]

theorem madePaths_referenceExpression {path : String} (plain : IsPlainPath path)
    (colon : ':' ∉ path.toList) :
    madePaths ("        ".toList ++ (referenceExpression path).toList) = [path] := by
  let opening : List Char := "        ParameterReference::new(\"".toList
  let ending : List Char := "\").expect(\"accessor paths are validated when generated\")".toList
  have shape : "        ".toList ++ (referenceExpression path).toList =
      opening ++ (path.toList ++ ending) := by
    unfold referenceExpression
    simp only [String.toList_append, List.append_assoc]
    rfl
  have oneLine : '\n' ∉ opening ++ (path.toList ++ ending) := by
    rw [List.mem_append, List.mem_append, not_or, not_or]
    exact ⟨by decide, fun feed => (plain '\n' feed).1 rfl, by decide⟩
  have code : isCommentLine (opening ++ (path.toList ++ ending)) = false := rfl
  have made : pathsInLine (opening ++ (path.toList ++ ending)) =
      String.ofList ((path.toList ++ ending).takeWhile (· != '"')) ::
        pathsInLine (path.toList ++ ending) := rfl
  have first : (path.toList ++ ending).takeWhile (· != '"') = path.toList := by
    have quoted : ∀ c ∈ path.toList, (c != '"') = true := fun c mem => by
      simpa using (plain c mem).2.1
    rw [List.takeWhile_append_of_pos quoted]
    exact List.append_nil _
  have later : pathsInLine (path.toList ++ ending) = [] := by
    apply pathsInLine_of_notMem
    rw [List.mem_append, not_or]
    exact ⟨colon, by decide⟩
  rw [shape, madePaths_of_oneLine oneLine, code, made, first, later, String.ofList_toList]
  rfl

theorem colon_notMem_methodName (member : String) : ':' ∉ (Names.methodName member).toList := by
  have name : ':' ∉ (String.ofList (Names.snakeCase member.toList)).toList := by
    rw [String.toList_ofList]
    intro colon
    cases (Names.snakeCase_letters member.toList).2 ':' colon
  unfold Names.methodName
  dsimp only
  split
  · rw [String.toList_append, List.mem_append, not_or]
    exact ⟨by decide, name⟩
  · exact name

theorem colon_notMem_typeName (root : String) (members : List String) :
    ':' ∉ (typeName (stemAt root members)).toList := by
  intro colon
  cases isWordCharacter_of_mem_typeName_stemAt colon

theorem ParameterReference.colon_notMem_path (r : ParameterReference) : ':' ∉ r.path.toList := by
  intro colon
  rcases r.eq_dot_or_continuesSegment colon with dot | allowed
  · exact absurd dot (by decide)
  · cases allowed

/-- In a method, only the body makes references. -/
theorem madePaths_methodSource_append {comment name type : String} (body : String)
    (oneLine : '\n' ∉ comment.toList) (named : ':' ∉ name.toList) (typed : ':' ∉ type.toList)
    (below : List Char) :
    madePaths ((methodSource comment name type body).toList ++ below) =
      madePaths ("        ".toList ++ body.toList) ++ madePaths below := by
  have signature : ':' ∉ "    pub fn ".toList ++ name.toList ++ "(&self) -> ".toList ++
      type.toList ++ " \x7b".toList := by
    simp only [List.mem_append, not_or]
    exact ⟨⟨⟨⟨by decide, named⟩, by decide⟩, typed⟩, by decide⟩
  have closing : madePaths "    \x7d".toList = [] := madePaths_of_notMem (by decide)
  have lines : (methodSource comment name type body).toList ++ below =
      ("    /// ".toList ++ comment.toList) ++ '\n' ::
        (("    pub fn ".toList ++ name.toList ++ "(&self) -> ".toList ++ type.toList ++
          " \x7b".toList) ++ '\n' ::
          (("        ".toList ++ body.toList) ++ '\n' ::
            ("    \x7d".toList ++ '\n' :: below))) := by
    unfold methodSource
    simp only [String.toList_append, List.append_assoc]
    rfl
  rw [lines, madePaths_append_feed, madePaths_append_feed, madePaths_append_feed,
    madePaths_append_feed, madePaths_comment oneLine, madePaths_of_notMem signature, closing]
  rfl

/-- A method makes the reference that it gives. -/
theorem madePaths_source_append {root : String} {p : Position} {m : Method}
    (declared : m ∈ (p.declaration root).methods) (below : List Char) :
    madePaths (m.source.toList ++ below) = m.item.result.path?.toList ++ madePaths below := by
  have reference : ':' ∉ "ParameterReference".toList := by decide
  rcases List.mem_append.1 declared with own | inMembers
  · obtain ⟨r, _, rfl⟩ := List.mem_map.1 own
    rw [Method.source, madePaths_methodSource_append _ r.isPlainPath.notMem_comment.2 (by decide)
      reference, madePaths_referenceExpression r.isPlainPath r.colon_notMem_path]
    rfl
  · obtain ⟨a, _, rfl⟩ := List.mem_map.1 inMembers
    have comment := a.reference.isPlainPath.notMem_comment.1
    have named := colon_notMem_methodName a.member
    unfold memberMethod
    split
    · rw [Method.source, madePaths_methodSource_append _ comment named reference,
        madePaths_referenceExpression a.reference.isPlainPath a.reference.colon_notMem_path]
      rfl
    · have typed := colon_notMem_typeName root (p.members ++ [a.member])
      rw [stemAt_append] at typed
      have value : ':' ∉ "        ".toList ++
          (typeName (stemAt root p.members ++ Names.pascalCase a.member)).toList := by
        rw [List.mem_append, not_or]
        exact ⟨by decide, typed⟩
      rw [Method.source, madePaths_methodSource_append _ comment named typed,
        madePaths_of_notMem value]
      rfl

/-! ### Types -/

/-- The paths of the references that the type at the position gives. -/
def Position.paths (p : Position) : List String :=
  p.parameter.toList.map (·.path) ++
    (p.group.members.filter (·.nested.isNone)).map (·.reference.path)

theorem filterMap_path?_memberMethod (stem : String) (members : List Accessor) :
    (members.map (memberMethod stem)).filterMap (·.item.result.path?) =
      (members.filter (·.nested.isNone)).map (·.reference.path) := by
  induction members with
  | nil => rfl
  | cons a members ih =>
    rw [List.map_cons, List.filterMap_cons, List.filter_cons, ih, memberMethod]
    cases a.nested <;> rfl

theorem Position.filterMap_path?_declaration (root : String) (p : Position) :
    (p.declaration root).methods.filterMap (·.item.result.path?) = p.paths := by
  rw [declaration, paths, List.filterMap_append, filterMap_path?_memberMethod]
  cases p.parameter <;> rfl

theorem madePaths_methods {root : String} {p : Position} {methods : List Method}
    (declared : ∀ m ∈ methods, m ∈ (p.declaration root).methods) :
    madePaths (("\n".intercalate (methods.map Method.source)).toList ++ "\x7d".toList) =
      methods.filterMap (·.item.result.path?) := by
  have closing : madePaths "\x7d".toList = [] := madePaths_of_notMem (by decide)
  have separator : "\n".toList = ['\n'] := rfl
  rw [String.toList_intercalate, List.map_map, separator]
  induction methods with
  | nil => exact closing
  | cons m methods ih =>
    obtain ⟨first, others⟩ := List.forall_mem_cons.1 declared
    have rest := ih others
    have made : (m :: methods).filterMap (·.item.result.path?) =
        m.item.result.path?.toList ++ methods.filterMap (·.item.result.path?) := by
      rw [List.filterMap_cons]
      cases m.item.result.path? <;> rfl
    rw [made, ← rest]
    cases methods with
    | nil =>
      rw [List.map_singleton, List.intercalate_singleton, Function.comp_apply,
        madePaths_source_append first]
      rfl
    | cons next methods =>
      rw [List.map_cons, List.map_cons, List.intercalate_cons_cons, List.append_assoc,
        List.append_assoc, Function.comp_apply, madePaths_source_append first,
        List.singleton_append, ← List.nil_append ('\n' :: _), madePaths_append_feed]
      rfl

/-- The lines of a type below its comment make the references that the type gives. -/
theorem madePaths_body (root : String) (p : Position) :
    madePaths (p.declaration root).body.toList = p.paths := by
  have named := colon_notMem_typeName root p.members
  have opening : ':' ∉ "#[derive(Debug, Clone, Copy, Default)]\n".toList ++
      "pub struct ".toList ++ (p.declaration root).name.toList ++ ";\n\nimpl ".toList ++
      (p.declaration root).name.toList ++ " \x7b".toList := by
    simp only [List.mem_append, not_or]
    exact ⟨⟨⟨⟨⟨by decide, by decide⟩, named⟩, by decide⟩, named⟩, by decide⟩
  have lines : (p.declaration root).body.toList =
      ("#[derive(Debug, Clone, Copy, Default)]\n".toList ++ "pub struct ".toList ++
        (p.declaration root).name.toList ++ ";\n\nimpl ".toList ++
        (p.declaration root).name.toList ++ " \x7b".toList) ++ '\n' ::
        (("\n".intercalate ((p.declaration root).methods.map Method.source)).toList ++
          "\x7d".toList) := by
    unfold TypeDeclaration.body
    simp only [String.toList_append, List.append_assoc]
    rfl
  rw [lines, madePaths_append_feed, madePaths_of_notMem opening,
    madePaths_methods (fun m mem => mem), p.filterMap_path?_declaration, List.nil_append]

/-! ## Orders of references -/

mutual

/-- The positions of a group give its references, and the parameter that it is below. -/
theorem groupPaths_perm (way : List String) (parameter : Option ParameterReference) :
    ∀ g : AccessorGroup, ((groupPositions way parameter g).flatMap Position.paths).Perm
      (parameter.toList.map (·.path) ++ g.references.map (·.path))
  | ⟨record, members⟩ => by
    rw [groupPositions, List.flatMap_cons, Position.paths, List.append_assoc,
      AccessorGroup.references, AccessorGroup.flatten, List.map_map]
    exact (memberPaths_perm way members).append_left _

theorem memberPaths_perm (way : List String) : ∀ members : List Accessor,
    ((members.filter (·.nested.isNone)).map (·.reference.path) ++
        (memberPositions way members).flatMap Position.paths).Perm
      ((flattenMembers members).map (·.reference.path))
  | [] => .refl _
  | ⟨member, kind, reference, none⟩ :: rest => by
    have others := memberPaths_perm way rest
    exact others.cons reference.path
  | ⟨member, kind, reference, some group⟩ :: rest => by
    have here := groupPaths_perm (way ++ [member]) (some reference) group
    have others := memberPaths_perm way rest
    rw [memberPositions, accessorPositions, nestedPositions, List.flatMap_append, flattenMembers,
      Accessor.flatten, flattenNested, List.cons_append, List.map_cons, List.map_append]
    -- The type of the group comes behind the accessors that follow, and its references do too.
    refine List.perm_append_comm_assoc _ _ _ |>.trans ?_
    have both := here.append others
    rwa [AccessorGroup.references, List.map_map, Option.toList_some, List.map_singleton,
      List.singleton_append, List.cons_append] at both

end

/-! ## Sources -/

theorem madePaths_preamble (record : String) :
    madePaths (preamble record) = recordPaths record := by
  have code : madePaths ("// Generated by azpipe; do not edit by hand\n\n" ++
      "use pipeline_core::ParameterReference;").toList = [] := by decide +kernel
  have shape : preamble record = '/' :: '/' :: (" Parameter accessors for `".toList ++
      (record.toList ++ ['`'])) ++ '\n' :: ("// Generated by azpipe; do not edit by hand\n\n" ++
        "use pipeline_core::ParameterReference;").toList := by
    unfold preamble notice
    simp only [List.append_assoc, List.cons_append]
    rfl
  rw [shape, madePaths_append_feed, code, List.append_nil, madePaths,
    codeLines_comment (by decide)]
  rfl

/-- What a source makes references to, type by type. -/
theorem AccessorGroup.madePaths_source {g : AccessorGroup} {source : String}
    (made : g.source = .ok source) : madePaths source.toList = recordPaths g.record ++
      g.positions.flatMap fun p => recordPaths p.group.record ++ p.paths := by
  have types : (g.positions.flatMap fun p => (p.declaration g.record).code).flatMap pathsInLine =
      g.positions.flatMap fun p => recordPaths p.group.record ++ p.paths := by
    rw [List.flatMap_assoc]
    refine List.flatMap_congr fun p _ => ?_
    rw [TypeDeclaration.code, List.flatMap_cons, List.flatMap_append, ← madePaths_body g.record p]
    rfl
  have preamble := madePaths_preamble g.record
  rw [madePaths] at preamble ⊢
  rw [g.codeLines_source made, List.flatMap_append, List.flatMap_append, preamble, types,
    List.flatMap_singleton, pathsInLine, List.append_nil]

/-! ### What is read of sources -/

/-- The paths of the references that the methods of code give. -/
def Code.pathsOf (items : List Code.Item) : List String :=
  (Code.methodsOf items).filterMap (·.2.result.path?)

namespace AccessorGroup

theorem pathsOf_items (g : AccessorGroup) :
    Code.pathsOf g.items = g.positions.flatMap Position.paths := by
  rw [Code.pathsOf, methodsOf_items, List.filterMap_flatMap]
  refine List.flatMap_congr fun p _ => ?_
  rw [List.filterMap_map, ← p.filterMap_path?_declaration g.record]
  rfl

/-- The types of a tree give each of its references once. -/
theorem paths_positions_perm (g : AccessorGroup) :
    (g.positions.flatMap Position.paths).Perm (g.references.map (·.path)) :=
  groupPaths_perm [] none g

theorem listing_eq_references (g : AccessorGroup) :
    g.listing.map Prod.fst = g.references.map (·.path) := by
  rw [listing, references, List.map_map, List.map_map]
  rfl

/-- The paths of the references that the names of records make, each where it is written. -/
def strayPaths (g : AccessorGroup) : List String :=
  (g.record :: g.positions.map (·.group.record)).flatMap recordPaths

theorem strayPaths_eq_nil_iff (g : AccessorGroup) :
    g.strayPaths = [] ↔ ∀ p ∈ g.positions, recordPaths p.group.record = [] := by
  have root : ⟨[], none, g⟩ ∈ g.positions := mem_groupPositions_self [] none g
  rw [strayPaths, List.flatMap_eq_nil_iff, List.forall_mem_cons, List.forall_mem_map]
  constructor
  · intro quiet
    exact quiet.2
  · intro quiet
    have first := quiet _ root
    exact ⟨first, quiet⟩

theorem madePaths_source_perm {g : AccessorGroup} {source : String} (made : g.source = .ok source) :
    (madePaths source.toList).Perm (g.strayPaths ++ g.references.map (·.path)) := by
  rw [madePaths_source made, strayPaths, List.flatMap_cons, List.flatMap_map, List.append_assoc]
  have apart := List.flatMap_append_perm g.positions
    (fun p => recordPaths p.group.record) Position.paths
  exact (apart.symm.trans (g.paths_positions_perm.append_left _)).append_left _

/-- A tree is listed with the paths of its references in their order.  The generated source makes a
reference to each of them once, beside those that the names of records bring behind line feeds, and
the methods that are read of it give each of them once if no name has a line feed. -/
theorem madePaths_perm_references_iff {g : AccessorGroup} {source : String}
    (made : g.source = .ok source) :
    g.listing.map Prod.fst = g.references.map (·.path) ∧
      (madePaths source.toList).Perm (g.strayPaths ++ g.references.map (·.path)) ∧
      ((madePaths source.toList).Perm (g.references.map (·.path)) ↔
        ∀ p ∈ g.positions, recordPaths p.group.record = []) ∧
      ((∀ p ∈ g.positions, '\n' ∉ p.group.record.toList) →
        (∀ p ∈ g.positions, recordPaths p.group.record = []) ∧
          ∃ items, Code.read source = some items ∧
            (Code.pathsOf items).Perm (g.references.map (·.path))) := by
  have all := madePaths_source_perm made
  refine ⟨g.listing_eq_references, all, ?_, fun oneLine => ⟨fun p mem => ?_, ?_⟩⟩
  · rw [← g.strayPaths_eq_nil_iff]
    constructor
    · intro exact
      have lengths := (all.symm.trans exact).length_eq
      rw [List.length_append] at lengths
      exact List.eq_nil_of_length_eq_zero (by omega)
    · intro none
      rwa [none] at all
  · rw [recordPaths, strayLines_eq_nil (oneLine p mem)]
    rfl
  · refine ⟨g.items, read_source made oneLine, ?_⟩
    rw [g.pathsOf_items]
    exact g.paths_positions_perm

theorem madePaths_perm_references_iff_deployments : ∃ source, deployments.source = .ok source ∧
    deployments.listing.map Prod.fst =
      ["runTests", "deploy", "deploy.region", "deploy.type", "stage"] ∧
    (madePaths source.toList).Perm
      ["runTests", "deploy", "deploy.region", "deploy.type", "stage"] := by
  obtain ⟨source, made⟩ := exists_source_deployments
  obtain ⟨listed, -, exact, -⟩ := madePaths_perm_references_iff made
  have plain : ∀ p ∈ deployments.positions, recordPaths p.group.record = [] := by
    decide +kernel
  exact ⟨source, made, listed, exact.2 plain⟩

/-- The name of a record that brings a type with a method of its own. -/
def methodRecord : String :=
  "X\npub struct Y;\n\nimpl Y \x7b\n    pub fn z(&self) -> ParameterReference \x7b\n" ++
    "        ParameterReference::new(\"z\").expect(\"\")\n    \x7d\n\x7d\n//"

/-- The method makes a reference that is not one of the tree. -/
theorem nestedRecord_makesReference :
    ∃ source, (nestedRecord methodRecord).source = .ok source ∧ "z" ∈ madePaths source.toList ∧
      ¬(madePaths source.toList).Perm ((nestedRecord methodRecord).references.map (·.path)) := by
  obtain ⟨source, made⟩ : ∃ source, (nestedRecord methodRecord).source = .ok source := ⟨_, rfl⟩
  have all := madePaths_source_perm made
  have stray : (nestedRecord methodRecord).strayPaths = ["z"] := by decide +kernel
  rw [stray] at all
  refine ⟨source, made, all.mem_iff.2 List.mem_cons_self, fun exact => ?_⟩
  have lengths := (all.symm.trans exact).length_eq
  rw [List.length_append, List.length_singleton] at lengths
  omega

end AccessorGroup

end AzurePipelines
