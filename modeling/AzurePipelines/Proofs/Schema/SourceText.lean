import AzurePipelines.Proofs.Schema.Code
import AzurePipelines.Proofs.Schema.Positions
import Mathlib

/-!
# Sources of generated code

The source of generated code reads back as the types that were declared, each followed by its
methods, if no record has a line feed in its name (`AccessorGroup.read_source`).  All other texts
keep to their places whatever they hold: paths by their grammar, and the names of members because
they are only written as the words that they are cut into.
-/

namespace AzurePipelines

/-! ## Names -/

namespace Names

theorem isAlphanum_toLower {c : Char} (h : c.isAlphanum = true) :
    c.toLower.isAlphanum = true := by
  by_cases upper : c.isUpper = true
  · have letter : c.isAlpha = true := by simp [Char.isAlpha, upper]
    simp [Char.isAlphanum, letter]
  · rwa [Char.toLower_eq_of_not_isUpper upper]

theorem isAlphanum_toUpper {c : Char} (h : c.isAlphanum = true) :
    c.toUpper.isAlphanum = true := by
  by_cases lower : c.isLower = true
  · have letter : c.isAlpha = true := by simp [Char.isAlpha, lower]
    simp [Char.isAlphanum, letter]
  · rwa [Char.toUpper_eq_of_not_isLower lower]

theorem isAlphanum_of_mem_wordsAfter (previous : Option Char) (text : List Char) :
    (∀ c ∈ (wordsAfter previous text).1, c.isAlphanum = true) ∧
      ∀ word ∈ (wordsAfter previous text).2, ∀ c ∈ word, c.isAlphanum = true := by
  induction text generalizing previous with
  | nil => simp [wordsAfter]
  | cons c text ih =>
    obtain ⟨first, others⟩ := ih (some c)
    rw [wordsAfter]
    cases shape : wordsAfter (some c) text with | mk more words
    simp only [shape] at first others ⊢
    have ended : ∀ word ∈ if more.isEmpty then words else more :: words,
        ∀ d ∈ word, d.isAlphanum = true := by
      split
      · exact others
      · exact List.forall_mem_cons.2 ⟨first, others⟩
    by_cases letter : c.isAlphanum = true
    · have longer : ∀ d ∈ c :: more, d.isAlphanum = true := by simpa [letter] using first
      by_cases starts : startsWord previous c text.head? = true
      · simp only [letter, starts, Bool.not_true, Bool.false_eq_true, if_false, if_true]
        exact ⟨by simp, List.forall_mem_cons.2 ⟨longer, others⟩⟩
      · simp only [letter, starts, Bool.not_true, Bool.false_eq_true, if_false]
        exact ⟨longer, others⟩
    · simp only [letter, Bool.not_false, if_true]
      exact ⟨by simp, ended⟩

/-- Words are made of letters and digits. -/
theorem isAlphanum_of_mem_words {text word : List Char} {c : Char} (inWords : word ∈ words text)
    (inWord : c ∈ word) : c.isAlphanum = true := by
  obtain ⟨first, others⟩ := isAlphanum_of_mem_wordsAfter none text
  unfold words at inWords
  cases shape : wordsAfter none text with | mk more rest
  simp only [shape] at first others inWords
  split at inWords
  · exact others word inWords c inWord
  · exact List.forall_mem_cons.2 ⟨first, others⟩ word inWords c inWord

open Code

/-- What holds of a separator and of all texts between holds of the texts joined. -/
theorem forall_mem_intercalate {p : Char → Prop} {sep : Char} (separator : p sep)
    {texts : List (List Char)} (letters : ∀ text ∈ texts, ∀ c ∈ text, p c) :
    ∀ c ∈ [sep].intercalate texts, p c := by
  induction texts with
  | nil => simp
  | cons text texts ih =>
    obtain ⟨first, rest⟩ := List.forall_mem_cons.1 letters
    cases texts with
    | nil => simpa using first
    | cons next texts =>
      rw [List.intercalate_cons_cons]
      intro c mem
      rcases List.mem_append.1 mem with mem | mem
      · rcases List.mem_append.1 mem with mem | mem
        · exact first c mem
        · rwa [List.mem_singleton.1 mem]
      · exact ih rest c mem

/-- The name of a method is made of letters, digits and underscores, and never empty. -/
theorem snakeCase_letters (text : List Char) :
    snakeCase text ≠ [] ∧ ∀ c ∈ snakeCase text, isWordCharacter c = true := by
  have letters : ∀ c ∈ ['_'].intercalate ((words text).map (·.map Char.toLower)),
      isWordCharacter c = true := by
    refine forall_mem_intercalate (p := (isWordCharacter · = true)) rfl fun small mem c inSmall =>
      ?_
    obtain ⟨word, inWords, rfl⟩ := List.mem_map.1 mem
    obtain ⟨d, inWord, rfl⟩ := List.mem_map.1 inSmall
    exact isWordCharacter_of_isAlphanum
      (isAlphanum_toLower (isAlphanum_of_mem_words inWords inWord))
  unfold snakeCase
  cases shape : ['_'].intercalate ((words text).map (·.map Char.toLower)) with
  | nil => exact ⟨by simp, List.forall_mem_singleton.2 rfl⟩
  | cons c name =>
    rw [shape] at letters
    by_cases digit : c.isDigit = true
    · simp only [digit, if_true]
      exact ⟨by simp, List.forall_mem_cons.2 ⟨by decide, letters⟩⟩
    · simp only [digit]
      exact ⟨by simp, letters⟩

theorem isName_methodName (member : String) : IsName (methodName member) := by
  obtain ⟨nonempty, letters⟩ := snakeCase_letters member.toList
  rw [← String.toList_ofList (l := snakeCase member.toList)] at nonempty letters
  rw [methodName]
  by_cases reserved : reservedWords.contains (String.ofList (snakeCase member.toList)) = true
  · rw [if_pos reserved]
    exact isName_marked letters
  · rw [if_neg reserved]
    exact isName_of_forall nonempty letters

theorem isWordCharacter_of_mem_pascalCase {name : String} {c : Char}
    (h : c ∈ (pascalCase name).toList) : isWordCharacter c = true := by
  rw [pascalCase, String.toList_ofList, List.mem_flatMap] at h
  obtain ⟨word, inWords, inWord⟩ := h
  refine isWordCharacter_of_isAlphanum ?_
  cases word with
  | nil => cases inWord
  | cons d word =>
    rw [capitalised] at inWord
    rcases List.mem_cons.1 inWord with rfl | inRest
    · exact isAlphanum_toUpper (isAlphanum_of_mem_words inWords List.mem_cons_self)
    · obtain ⟨e, mem, rfl⟩ := List.mem_map.1 inRest
      exact isAlphanum_toLower (isAlphanum_of_mem_words inWords (List.mem_cons_of_mem d mem))

end Names

open Code

theorem isWordCharacter_of_mem_typeName_stemAt {root : String} {members : List String} {c : Char}
    (h : c ∈ (typeName (stemAt root members)).toList) : isWordCharacter c = true := by
  rw [typeName, String.toList_append, List.mem_append] at h
  rcases h with inStem | inEnding
  · rw [stemAt, String.toList_join, List.mem_flatMap] at inStem
    obtain ⟨part, inParts, inPart⟩ := inStem
    obtain ⟨name, _, rfl⟩ := List.mem_map.1 inParts
    exact Names.isWordCharacter_of_mem_pascalCase inPart
  · have ending : "Reference".toList.all isWordCharacter = true := rfl
    exact List.all_eq_true.1 ending c inEnding

theorem isName_typeName_stemAt (root : String) (members : List String) :
    IsName (typeName (stemAt root members)) :=
  isName_of_forall (by simp [typeName]) fun _ mem => isWordCharacter_of_mem_typeName_stemAt mem

/-- What may stand in a path: no line feed, quote or backslash. -/
theorem ParameterReference.mem_path (r : ParameterReference) {c : Char} (h : c ∈ r.path.toList) :
    c ≠ '\n' ∧ c ≠ '"' ∧ c ≠ '\\' := by
  rcases r.eq_dot_or_continuesSegment h with rfl | allowed
  · decide
  · refine ⟨?_, ?_, ?_⟩ <;> (rintro rfl; cases allowed)

/-! ## Declared types -/

namespace Code

/-- A method is read if its comment is one line, and its names and its body are read. -/
theorem reads_methodSource {comment name type body : String} {result : Result}
    (oneLine : '\n' ∉ comment.toList) (named : IsName name) (typed : IsName type)
    (inside : Reads .between (body.toList ++ ['\n']) result.tokens .between) :
    Reads .between (methodSource comment name type body).toList
      (MethodItem.mk name type result).tokens .between := by
  have opening : Reads .between "    /// ".toList [] .comment := rfl
  have visible : Reads .comment "\n    pub fn ".toList [.word "pub", .word "fn"] .between := rfl
  have signature (letters : List Char) : Reads (.word letters) "(&self) -> ".toList
      [.word (.ofList letters), .mark '(', .mark '&', .word "self", .mark ')', .mark '-',
        .mark '>'] .between := rfl
  have block (letters : List Char) : Reads (.word letters) " \x7b\n        ".toList
      [.word (.ofList letters), .mark '\x7b'] .between := rfl
  have closing : Reads .between "    \x7d\n".toList [.mark '\x7d'] .between := rfl
  have head := opening.append ((reads_comment oneLine).append (visible.append named))
  have result := (signature name.toList).append (typed.append (block type.toList))
  have whole := head.append (result.append (inside.append closing))
  unfold methodSource
  simpa [String.toList_append, String.ofList_toList, MethodItem.tokens] using whole

/-- A reference to a path is made of it as it is. -/
theorem reads_referenceExpression {path : String}
    (plain : ∀ c ∈ path.toList, c ≠ '"' ∧ c ≠ '\\') :
    Reads .between ((referenceExpression path).toList ++ ['\n'])
      (Result.reference path).tokens .between := by
  have opening : Reads .between "ParameterReference::new(\"".toList
      [.word "ParameterReference", .mark ':', .mark ':', .word "new", .mark '('] (.quoted []) := rfl
  have call (text : List Char) : Reads (.quoted text) "\").expect(\"".toList
      [.quoted (.ofList text), .mark ')', .mark '.', .word "expect", .mark '('] (.quoted []) := rfl
  have reason : Reads (.quoted []) "accessor paths are validated when generated".toList []
      (.quoted "accessor paths are validated when generated".toList) :=
    reads_quoted [] (by simp)
  have closing (text : List Char) : Reads (.quoted text) ("\")".toList ++ ['\n'])
      [.quoted (.ofList text), .mark ')'] .between := rfl
  have path := (reads_quoted [] plain).append (call path.toList)
  have whole := opening.append (path.append (reason.append (closing _)))
  unfold referenceExpression
  simpa [String.toList_append, String.ofList_toList, Result.tokens] using whole

/-- A type is made by its name. -/
theorem reads_value {type : String} (typed : IsName type) :
    Reads .between (type.toList ++ ['\n']) (Result.value type).tokens .between := by
  have ended (letters : List Char) : Reads (.word letters) ['\n'] [.word (.ofList letters)]
      .between := rfl
  simpa [String.ofList_toList, Result.tokens] using typed.append (ended type.toList)

end Code

open Code

/-- The method as it is read. -/
def Method.item : Method → MethodItem
  | .whole path => ⟨"reference", "ParameterReference", .reference path⟩
  | .leaf name path => ⟨name, "ParameterReference", .reference path⟩
  | .child name _ type => ⟨name, type, .value type⟩

/-- The type as it is read. -/
def TypeDeclaration.items (d : TypeDeclaration) : List Item :=
  [.struct d.name, .methods d.name (d.methods.map Method.item)]

/-- The text of a path may stand in a comment and in quotes. -/
def IsPlainPath (path : String) : Prop := ∀ c ∈ path.toList, c ≠ '\n' ∧ c ≠ '"' ∧ c ≠ '\\'

/-- Names are read as words, and paths as they are. -/
def Method.Legible : Method → Prop
  | .whole path => IsPlainPath path
  | .leaf name path => IsName name ∧ IsPlainPath path
  | .child name path type => IsName name ∧ IsPlainPath path ∧ IsName type

theorem IsPlainPath.notMem_comment {path : String} (plain : IsPlainPath path) :
    '\n' ∉ ("`" ++ path ++ "`").toList ∧
      '\n' ∉ ("The whole `" ++ path ++ "` parameter").toList := by
  have inside : '\n' ∉ path.toList := fun mem => (plain '\n' mem).1 rfl
  constructor <;> simp [inside]

theorem IsPlainPath.reads_referenceExpression {path : String} (plain : IsPlainPath path) :
    Reads .between ((referenceExpression path).toList ++ ['\n'])
      (Result.reference path).tokens .between :=
  Code.reads_referenceExpression fun c mem => (plain c mem).2

theorem Method.reads_source {m : Method} (legible : m.Legible) :
    Reads .between m.source.toList m.item.tokens .between := by
  have reference : IsName "ParameterReference" := rfl
  cases m with
  | whole path =>
    exact reads_methodSource legible.notMem_comment.2 (by rfl) reference
      legible.reads_referenceExpression
  | leaf name path =>
    obtain ⟨named, plain⟩ := legible
    exact reads_methodSource plain.notMem_comment.1 named reference plain.reads_referenceExpression
  | child name path type =>
    obtain ⟨named, plain, typed⟩ := legible
    exact reads_methodSource plain.notMem_comment.1 named typed (reads_value typed)

/-- A type is read behind what the name of its record says, if that ends in a comment. -/
theorem TypeDeclaration.reads_source {d : TypeDeclaration} {extra : List Token}
    (record : Reads .comment d.record.toList extra .comment) (named : IsName d.name)
    (legible : ∀ m ∈ d.methods, m.Legible) :
    Reads .between d.source.toList (extra ++ typeTokens d.name (d.methods.map Method.item))
      .between := by
  have opening : Reads .between "\n/// Parameters of record `".toList [] .comment := rfl
  have struct : Reads .comment "`\n#[derive(Debug, Clone, Copy, Default)]\npub struct ".toList
      [.word "pub", .word "struct"] .between := rfl
  have implementation (letters : List Char) : Reads (.word letters) ";\n\nimpl ".toList
      [.word (.ofList letters), .mark ';', .word "impl"] .between := rfl
  have block (letters : List Char) : Reads (.word letters) " \x7b\n".toList
      [.word (.ofList letters), .mark '\x7b'] .between := rfl
  have methods := Reads.intercalate fun m mem => Method.reads_source (legible m mem)
  have closing : Reads .between "\x7d\n".toList [.mark '\x7d'] .between := rfl
  have head := opening.append (record.append (struct.append named))
  have type := (implementation d.name.toList).append (named.append (block d.name.toList))
  have whole := head.append (type.append (methods.append closing))
  unfold TypeDeclaration.source
  simpa [String.toList_append, String.ofList_toList, String.toList_intercalate, typeTokens,
    List.flatMap_map, Function.comp_def] using whole

theorem ParameterReference.isPlainPath (r : ParameterReference) : IsPlainPath r.path :=
  fun _ mem => r.mem_path mem

theorem legible_of_mem_declaration {root : String} {p : Position} {m : Method}
    (h : m ∈ (p.declaration root).methods) : m.Legible := by
  rcases List.mem_append.1 h with own | inMembers
  · obtain ⟨r, _, rfl⟩ := List.mem_map.1 own
    exact r.isPlainPath
  · obtain ⟨a, _, rfl⟩ := List.mem_map.1 inMembers
    have named := Names.isName_methodName a.member
    unfold memberMethod
    split
    · exact ⟨named, a.reference.isPlainPath⟩
    · rw [← stemAt_append]
      exact ⟨named, a.reference.isPlainPath, isName_typeName_stemAt _ _⟩

/-- Sources are read behind what the names of records say, if these end in comments. -/
theorem AccessorGroup.read_source_eq {g : AccessorGroup} {source : String}
    (h : g.source = .ok source) (extra : String → List Token)
    (records : ∀ p ∈ g.positions,
      Reads .comment p.group.record.toList (extra p.group.record) .comment) :
    Code.read source = readItems (extra g.record ++ .word "use" :: .word "pipeline_core" ::
      .mark ':' :: .mark ':' :: .word "ParameterReference" :: .mark ';' ::
      (g.positions.map (·.declaration g.record)).flatMap fun d =>
        extra d.record ++ typeTokens d.name (d.methods.map Method.item)) := by
  obtain ⟨types, declared, h⟩ := exists_of_bind_eq_ok h
  cases h
  obtain ⟨rfl, -⟩ := declarations_eq_ok declared
  have opening : Reads .between "// Parameter accessors for `".toList [] .comment := rfl
  have root := records _ (mem_groupPositions_self [] none g)
  have notice : Reads .comment "`\n// Generated by azpipe; do not edit by hand\n\n".toList []
      .between := rfl
  have imports : Reads .between "use pipeline_core::ParameterReference;\n".toList
      [.word "use", .word "pipeline_core", .mark ':', .mark ':', .word "ParameterReference",
        .mark ';'] .between := rfl
  have each : ∀ d ∈ g.positions.map (·.declaration g.record), Reads .between d.source.toList
      (extra d.record ++ typeTokens d.name (d.methods.map Method.item)) .between := by
    intro d mem
    obtain ⟨p, inPositions, rfl⟩ := List.mem_map.1 mem
    exact TypeDeclaration.reads_source (records p inPositions)
      (isName_typeName_stemAt g.record p.members) fun m mem => legible_of_mem_declaration mem
  have head := opening.append (root.append (notice.append imports))
  have whole := head.append (Reads.flatMap each)
  rw [read_of_reads ?_ whole]
  · simp only [List.nil_append, List.append_assoc, List.cons_append]
  · simp [String.toList_append, String.toList_join, List.flatMap_map]

theorem readItems_flatMap_typeTokens (types : List TypeDeclaration) :
    readItems (types.flatMap fun d => typeTokens d.name (d.methods.map Method.item)) =
      some (types.flatMap TypeDeclaration.items) := by
  induction types with
  | nil => rw [List.flatMap_nil, readItems, List.flatMap_nil]
  | cons d types ih =>
    rw [List.flatMap_cons, readItems_typeTokens, ih]
    rfl

/-- What is read of the source of a tree of accessors. -/
def AccessorGroup.items (g : AccessorGroup) : List Item :=
  .use "pipeline_core" "ParameterReference" ::
    g.positions.flatMap fun p => (p.declaration g.record).items

/-- The source of a tree of accessors, where no record has a line feed in its name, reads back as
the types at its positions. -/
theorem AccessorGroup.read_source {g : AccessorGroup} {source : String}
    (h : g.source = .ok source) (oneLine : ∀ p ∈ g.positions, '\n' ∉ p.group.record.toList) :
    Code.read source = some g.items := by
  rw [read_source_eq h (fun _ => []) fun p mem => reads_comment (oneLine p mem), List.nil_append,
    readItems]
  simp only [List.nil_append]
  rw [readItems_flatMap_typeTokens, List.flatMap_map]
  rfl

/-- What code says that declares these types. -/
def declaredItems (types : List TypeDeclaration) : List Item :=
  .use "pipeline_core" "ParameterReference" :: types.flatMap TypeDeclaration.items

/-- The types of generated code are those at the positions, and the source says so. -/
theorem AccessorGroup.exists_declarations {g : AccessorGroup} {source : String}
    (h : g.source = .ok source) : ∃ types, g.declarations = .ok types ∧
      declaredItems types = g.items ∧ g.NamesDiffer ∧
      ((∀ p ∈ g.positions, '\n' ∉ p.group.record.toList) →
        Code.read source = some (declaredItems types)) := by
  obtain ⟨types, declared, -⟩ := exists_of_bind_eq_ok h
  obtain ⟨rfl, differ⟩ := declarations_eq_ok declared
  have same : declaredItems (g.positions.map (·.declaration g.record)) = g.items := by
    rw [declaredItems, items, List.flatMap_map]
  exact ⟨_, declared, same, differ, fun oneLine => same ▸ read_source h oneLine⟩

end AzurePipelines
