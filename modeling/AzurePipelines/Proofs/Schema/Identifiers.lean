import AzurePipelines.Proofs.Schema.Calls
import AzurePipelines.Proofs.Schema.RecordWays
import Mathlib

/-!
# Identifiers of generated code

The names of generated types and methods are made of the words of the names of records and members,
which may be any texts.  `Code.isIdentifier` and `Code.IsMethodName` say what may stand as a name.

A generated method may stand unless its member has no words, or is the word `self`, `super` or
`crate` in any letters: nothing is put for the words, the first two are not reserved, and the last
is marked as a name, which it must not be.  The name of a type may stand unless its first word
starts with a digit.  What this means for a schema is said by the ways to its records
(`Schema.legalNames_iff`).
-/

namespace AzurePipelines

/-! ## Identifiers -/

namespace Code

/-- The words that may not stand as names, in the edition of 2021. -/
def keywords : List String :=
  ["abstract", "as", "async", "await", "become", "box", "break", "const", "continue", "crate", "do",
    "dyn", "else", "enum", "extern", "false", "final", "fn", "for", "if", "impl", "in", "let",
    "loop", "macro", "match", "mod", "move", "mut", "override", "priv", "pub", "ref", "return",
    "self", "Self", "static", "struct", "super", "trait", "true", "try", "type", "typeof",
    "unsafe", "unsized", "use", "virtual", "where", "while", "yield"]

/-- The keywords that may not be marked as names either. -/
def pathKeywords : List String := ["crate", "self", "super", "Self"]

/-- A letter or an underscore, and then letters, digits and underscores; an underscore alone is no
identifier. -/
def isIdentifier (name : String) : Bool :=
  match name.toList with
  | [] => false
  | c :: rest => (c.isAlpha || c == '_') && rest.all isWordCharacter && name != "_"

/-- An identifier that is no keyword, or a keyword that is marked as a name. -/
inductive IsMethodName : String → Prop where
  | plain {name : String} : isIdentifier name = true → name ∉ keywords → IsMethodName name
  | marked {word : String} : word ∈ keywords → word ∉ pathKeywords → IsMethodName ("r#" ++ word)

/-- What may stand in an identifier may start it unless it is a digit. -/
theorem isAlpha_or_underscore {c : Char} (letter : isWordCharacter c = true) :
    (c.isAlpha || c == '_') = !c.isDigit := by
  cases digit : c.isDigit with
  | true =>
    have noLetter : c.isAlpha = false := by
      grind [Char.isAlpha, Char.isUpper, Char.isLower, Char.isDigit]
    have noUnderscore : c ≠ '_' := by
      rintro rfl
      cases digit
    simp [noLetter, noUnderscore]
  | false => simpa [isWordCharacter, Char.isAlphanum, digit] using letter

/-- A word is an identifier unless it starts with a digit or is an underscore alone. -/
theorem isIdentifier_iff {name : String} (nonempty : name.toList ≠ [])
    (letters : ∀ c ∈ name.toList, isWordCharacter c = true) :
    isIdentifier name = true ↔
      name.toList.head?.any Char.isDigit = false ∧ name ≠ "_" := by
  unfold isIdentifier
  cases shape : name.toList with
  | nil => exact absurd shape nonempty
  | cons c rest =>
    rw [shape] at letters
    have others : rest.all isWordCharacter = true :=
      List.all_eq_true.2 fun d mem => letters d (List.mem_cons_of_mem c mem)
    simp [isAlpha_or_underscore (letters c List.mem_cons_self), others]

end Code

namespace Names

/-- The words of a name in small letters. -/
def smallWords (name : String) : List String :=
  (words name.toList).map fun word => String.ofList (word.map Char.toLower)

/-- The words that a name may not be made of if a method is to be named for it. -/
def unnameable : List (List String) := [[], ["self"], ["super"], ["crate"]]

theorem ne_nil_of_mem_wordsAfter (previous : Option Char) (text : List Char) :
    ∀ word ∈ (wordsAfter previous text).2, word ≠ [] := by
  induction text generalizing previous with
  | nil => simp [wordsAfter]
  | cons c text ih =>
    have others := ih (some c)
    rw [wordsAfter]
    cases shape : wordsAfter (some c) text with | mk more words
    simp only [shape] at others ⊢
    by_cases letter : c.isAlphanum = true
    · by_cases starts : startsWord previous c text.head? = true
      · simpa [letter, starts] using others
      · simpa [letter, starts] using others
    · by_cases ended : more = []
      · simpa [letter, ended] using others
      · simpa [letter, ended] using others

/-- No word is empty. -/
theorem ne_nil_of_mem_words {text word : List Char} (h : word ∈ words text) : word ≠ [] := by
  have others := ne_nil_of_mem_wordsAfter none text
  unfold words at h
  cases shape : wordsAfter none text with | mk first rest
  simp only [shape] at h others
  split at h
  · exact others word h
  · rename_i nonempty
    rcases List.mem_cons.1 h with rfl | h
    · simpa using nonempty
    · exact others word h

/-- Texts that are joined give one text without the separator only if it is the only one. -/
theorem intercalate_eq_iff {sep : Char} {texts : List (List Char)} {text : List Char}
    (apart : sep ∉ text) (nonempty : text ≠ []) :
    [sep].intercalate texts = text ↔ texts = [text] := by
  match texts with
  | [] => simpa using nonempty.symm
  | [one] => simp
  | one :: next :: rest =>
    refine iff_of_false (fun same => apart ?_) (by simp)
    rw [← same, List.intercalate_cons_cons]
    simp

theorem snakeCase_eq_iff {text word : List Char} (apart : '_' ∉ word) (nonempty : word ≠ [])
    (start : word.head?.any Char.isDigit = false) :
    snakeCase text = word ↔ (words text).map (·.map Char.toLower) = [word] := by
  rw [← intercalate_eq_iff apart nonempty]
  unfold snakeCase
  cases shape : ['_'].intercalate ((words text).map (·.map Char.toLower)) with
  | nil =>
    refine iff_of_false (fun same => apart ?_) (fun same => nonempty same.symm)
    rw [← same]
    exact List.mem_cons_self
  | cons c name =>
    by_cases digit : c.isDigit = true
    · refine iff_of_false (fun same => apart ?_) (fun same => ?_)
      · rw [← same]
        simp [digit]
      · rw [← same] at start
        simp [digit] at start
    · simp [digit]

theorem exists_intercalate_cons (sep : List Char) (c : Char) (text : List Char)
    (texts : List (List Char)) : ∃ more, sep.intercalate ((c :: text) :: texts) = c :: more := by
  cases texts with
  | nil => exact ⟨text, by simp⟩
  | cons next texts =>
    rw [List.intercalate_cons_cons]
    exact ⟨_, rfl⟩

theorem snakeCase_eq_underscore_iff {text : List Char} : snakeCase text = ['_'] ↔
    words text = [] := by
  unfold snakeCase
  cases shape : words text with
  | nil => simp
  | cons word others =>
    have inWords : word ∈ words text := by simp [shape]
    obtain ⟨c, rest, rfl⟩ := List.exists_cons_of_ne_nil (ne_nil_of_mem_words inWords)
    have letter := isAlphanum_toLower (isAlphanum_of_mem_words inWords List.mem_cons_self)
    obtain ⟨more, joined⟩ := exists_intercalate_cons ['_'] c.toLower (rest.map Char.toLower)
      (others.map (·.map Char.toLower))
    rw [List.map_cons, List.map_cons, joined]
    have other : c.toLower ≠ '_' := by
      rintro same
      rw [same] at letter
      cases letter
    by_cases digit : c.toLower.isDigit = true <;> simp [digit, other]

/-- What is in front of a name keeps it from starting with a digit. -/
theorem isDigit_head_snakeCase (text : List Char) :
    (snakeCase text).head?.any Char.isDigit = false := by
  unfold snakeCase
  cases shape : ['_'].intercalate ((words text).map (·.map Char.toLower)) with
  | nil => simp
  | cons c name => by_cases digit : c.isDigit = true <;> simp [digit]

open Code

theorem isIdentifier_snakeCase_iff (text : List Char) :
    isIdentifier (String.ofList (snakeCase text)) = true ↔
      String.ofList (snakeCase text) ≠ "_" := by
  obtain ⟨nonempty, letters⟩ := snakeCase_letters text
  have start := isDigit_head_snakeCase text
  rw [← String.toList_ofList (l := snakeCase text)] at nonempty letters start
  rw [isIdentifier_iff nonempty letters, start]
  exact and_iff_right rfl

theorem smallWords_eq_singleton_iff (name word : String) (apart : '_' ∉ word.toList)
    (nonempty : word.toList ≠ []) (start : word.toList.head?.any Char.isDigit = false) :
    smallWords name = [word] ↔ String.ofList (snakeCase name.toList) = word := by
  have texts : (smallWords name).map String.toList =
      (words name.toList).map (·.map Char.toLower) := by
    simp [smallWords, Function.comp_def]
  have injective : Function.Injective (List.map String.toList) :=
    List.map_injective_iff.2 fun _ _ => String.toList_inj.1
  rw [← String.toList_inj, String.toList_ofList, snakeCase_eq_iff apart nonempty start, ← texts,
    ← injective.eq_iff, List.map_singleton]

theorem smallWords_mem_unnameable_iff (name : String) : smallWords name ∈ unnameable ↔
    String.ofList (snakeCase name.toList) ∈ ["_", "self", "super", "crate"] := by
  have none : smallWords name = [] ↔ String.ofList (snakeCase name.toList) = "_" := by
    rw [← String.toList_inj, String.toList_ofList, smallWords, List.map_eq_nil_iff]
    exact snakeCase_eq_underscore_iff.symm
  have self := smallWords_eq_singleton_iff name "self" (by decide) (by decide) (by decide)
  have super := smallWords_eq_singleton_iff name "super" (by decide) (by decide) (by decide)
  have crate := smallWords_eq_singleton_iff name "crate" (by decide) (by decide) (by decide)
  simp only [unnameable, List.mem_cons, List.not_mem_nil, or_false, none, self, super, crate]

/-- No letter of a name is a capital. -/
theorem snakeCase_ne_capitalised (text : List Char) : String.ofList (snakeCase text) ≠ "Self" := by
  intro same
  have words := (smallWords_eq_singleton_iff (String.ofList text) "Self" (by decide) (by decide)
    (by decide)).2 (by rwa [String.toList_ofList])
  rw [smallWords, List.map_eq_singleton_iff] at words
  obtain ⟨word, -, small⟩ := words
  rw [← String.toList_inj, String.toList_ofList] at small
  have capital : 'S' ∈ word.map Char.toLower := by simp [small]
  obtain ⟨c, -, isCapital⟩ := List.mem_map.1 capital
  have lower := Char.isUpper_toLower_eq_false c
  rw [isCapital] at lower
  cases lower

theorem mem_keywords_iff (name : String) : name ∈ keywords ↔
    name ∈ reservedWords ∨ name ∈ ["self", "super", "Self"] := by
  have same : keywords.Perm (reservedWords ++ ["self", "super", "Self"]) := by decide
  rw [same.mem_iff, List.mem_append]

/-- A keyword that is marked as a name may stand for a method unless it starts a path. -/
theorem isMethodName_marked_iff {word : String} (keyword : word ∈ keywords) :
    IsMethodName ("r#" ++ word) ↔ word ∉ pathKeywords := by
  refine ⟨fun named => ?_, .marked keyword⟩
  generalize same : "r#" ++ word = name at named
  cases named with
  | plain identifier _ =>
    rw [← same] at identifier
    simp [isIdentifier, isWordCharacter] at identifier
  | marked _ allowed =>
    obtain rfl := (String.append_right_inj _).1 same
    exact allowed

theorem isMethodName_iff_of_letters {name : String}
    (letters : ∀ c ∈ name.toList, isWordCharacter c = true) :
    IsMethodName name ↔ isIdentifier name = true ∧ name ∉ keywords := by
  refine ⟨fun named => ?_, fun ⟨identifier, free⟩ => .plain identifier free⟩
  cases named with
  | plain identifier free => exact ⟨identifier, free⟩
  | marked _ _ =>
    have mark := letters '#' (by simp)
    cases mark

/-- A method has a name that may stand there unless its member is made of the wrong words. -/
theorem isMethodName_methodName_iff (member : String) :
    IsMethodName (methodName member) ↔ smallWords member ∉ unnameable := by
  have identifier := isIdentifier_snakeCase_iff member.toList
  have capital := snakeCase_ne_capitalised member.toList
  obtain ⟨-, letters⟩ := snakeCase_letters member.toList
  rw [← String.toList_ofList (l := snakeCase member.toList)] at letters
  rw [smallWords_mem_unnameable_iff, methodName]
  generalize String.ofList (snakeCase member.toList) = name at *
  by_cases reserved : name ∈ reservedWords
  · have others : name ∉ ["_", "self", "super", "Self"] := by
      intro mem
      have free : ∀ word ∈ ["_", "self", "super", "Self"], word ∉ reservedWords := by decide
      exact free name mem reserved
    rw [if_pos (by simpa using reserved),
      isMethodName_marked_iff ((mem_keywords_iff name).2 (.inl reserved))]
    simp only [List.mem_cons, List.not_mem_nil, or_false, not_or, pathKeywords] at others ⊢
    tauto
  · have crate : name ≠ "crate" := by
      rintro rfl
      exact reserved (by decide)
    rw [if_neg (by simpa using reserved), isMethodName_iff_of_letters letters, identifier,
      mem_keywords_iff]
    rw [← not_iff_not]
    simp only [List.mem_cons, List.not_mem_nil, or_false]
    tauto

end Names

/-- The name of a type is an identifier unless it starts with a digit. -/
theorem isIdentifier_typeName_stemAt_iff (root : String) (members : List String) :
    Code.isIdentifier (typeName (stemAt root members)) = true ↔
      (stemAt root members).toList.head?.any Char.isDigit = false := by
  have ending : "Reference".toList = 'R' :: "eference".toList := rfl
  have shape : (typeName (stemAt root members)).toList =
      (stemAt root members).toList ++ 'R' :: "eference".toList := by
    rw [typeName, String.toList_append, ending]
  have long : typeName (stemAt root members) ≠ "_" := by
    intro same
    have last := congrArg (·.toList.getLast?) same
    simp [shape] at last
  have nonempty : (typeName (stemAt root members)).toList ≠ [] := by simp [shape]
  rw [Code.isIdentifier_iff nonempty fun _ => isWordCharacter_of_mem_typeName_stemAt, shape]
  cases (stemAt root members).toList with
  | nil => simpa using long
  | cons c rest => simp [long]

/-! ## Names of generated code -/

open Code

namespace AccessorGroup

theorem forall_structsOf_items_iff (g : AccessorGroup) :
    (∀ name ∈ structsOf g.items, isIdentifier name = true) ↔
      ∀ p ∈ g.positions, (stemAt g.record p.members).toList.head?.any Char.isDigit = false := by
  rw [structsOf_items, List.forall_mem_map]
  exact forall₂_congr fun p _ => isIdentifier_typeName_stemAt_iff g.record p.members

theorem isMethodName_reference : IsMethodName "reference" := .plain (by decide) (by decide)

theorem forall_methodsOf_items_iff (g : AccessorGroup) :
    (∀ m ∈ methodsOf g.items, IsMethodName m.2.name) ↔
      ∀ p ∈ g.positions, ∀ a ∈ p.group.members,
        Names.smallWords a.member ∉ Names.unnameable := by
  have each (p : Position) :
      (∀ m ∈ (p.declaration g.record).methods, IsMethodName m.item.name) ↔
        ∀ a ∈ p.group.members, Names.smallWords a.member ∉ Names.unnameable := by
    rw [← List.forall_mem_map (P := IsMethodName), p.map_name_item, Position.methodNames,
      List.forall_mem_append, List.forall_mem_map, List.forall_mem_map]
    refine (and_iff_right fun _ _ => isMethodName_reference).trans ?_
    exact forall₂_congr fun a _ => Names.isMethodName_methodName_iff a.member
  rw [methodsOf_items]
  simp only [List.forall_mem_flatMap, List.forall_mem_map, each]

end AccessorGroup

namespace Schema

variable {s : Schema} {root : String} {g : AccessorGroup}

/-- Types may be named as they are exactly if no way from the root to a record makes a name that
starts with a digit, and methods exactly if no parameter of a record that is reached is made of the
wrong words. -/
theorem legalNames_iff {source : String} (flat : s.accessors root = .ok g)
    (made : g.source = .ok source) : ∃ types, g.declarations = .ok types ∧
      ((∀ record, s.Reaches root record → '\n' ∉ record.toList) →
        Code.read source = some (declaredItems types)) ∧
      ((∀ name ∈ structsOf (declaredItems types), isIdentifier name = true) ↔
        ∀ way record, s.Leads root way record →
          (stemAt root way).toList.head?.any Char.isDigit = false) ∧
      ((∀ m ∈ methodsOf (declaredItems types), IsMethodName m.2.name) ↔
        ∀ record m, s.Reaches root record → s.HasParameter record m →
          Names.smallWords m.name ∉ Names.unnameable) := by
  obtain ⟨types, declared, same, -, reading⟩ := AccessorGroup.exists_declarations made
  refine ⟨types, declared, fun oneLine => reading fun p mem => ?_, ?_, ?_⟩
  · exact oneLine _ (leads_of_mem_positions flat mem).reaches
  · rw [same, g.forall_structsOf_items_iff, record_of_accessors_eq_ok flat]
    constructor
    · intro each way record leads
      obtain ⟨p, mem, rfl, -⟩ := exists_position_of_leads flat leads
      exact each p mem
    · exact fun each p mem => each _ _ (leads_of_mem_positions flat mem)
  · rw [same, g.forall_methodsOf_items_iff]
    exact forall_member_iff flat (motive := fun name => Names.smallWords name ∉ Names.unnameable)

/-- A parameter whose name may not be marked as one. -/
def crateSchema : Schema where
  records := [{ name := "Root", members := [{ name := "crate" }] }]

/-- The accessors of `crateSchema`. -/
def crateGroup : AccessorGroup := ⟨"Root", [⟨"crate", .string, ⟨"crate", by decide⟩, none⟩]⟩

theorem accessors_crateSchema : crateSchema.accessors "Root" = .ok crateGroup := by
  have found : crateSchema.membersOf "Root" = .ok [{ name := "crate" }] :=
    membersOf_eq_ok_iff.2 ⟨_, .last rfl rfl, by decide, rfl⟩
  exact accessors_eq_ok_iff.2 ⟨by decide, group_eq_ok_iff.2 ⟨by decide, _, found, by decide, rfl,
    .cons ⟨rfl, rfl, memberReference_none_eq_ok_iff.2 rfl, rfl⟩ .nil⟩⟩

theorem eq_of_hasParameter_crateSchema {record : String} {m : Member}
    (has : crateSchema.HasParameter record m) : m = { name := "crate" } := by
  obtain ⟨_, r, _, declared, member, _⟩ := has
  obtain rfl := List.mem_singleton.1 (mem_of_record?_eq_some declared).1
  exact List.mem_singleton.1 member

/-- No way leads from the root to another record. -/
theorem Leads.eq_of_crateSchema {way : List String} {record : String}
    (leads : crateSchema.Leads root way record) : way = [] ∧ record = root := by
  cases leads with
  | here => exact ⟨rfl, rfl⟩
  | inside _ has isRecord =>
    rw [eq_of_hasParameter_crateSchema has] at isRecord
    cases isRecord

/-- The types of the code have names that may stand there, and one of the methods has not. -/
theorem legalNames_iff_crate : crateSchema.accessors "Root" = .ok crateGroup ∧
    ∃ source types, crateGroup.source = .ok source ∧ crateGroup.declarations = .ok types ∧
      Code.read source = some (declaredItems types) ∧
      (∀ name ∈ structsOf (declaredItems types), isIdentifier name = true) ∧
      ¬∀ m ∈ methodsOf (declaredItems types), IsMethodName m.2.name := by
  obtain ⟨source, made⟩ : ∃ source, crateGroup.source = .ok source := ⟨_, rfl⟩
  obtain ⟨types, declared, reading, structs, methods⟩ := legalNames_iff accessors_crateSchema made
  refine ⟨accessors_crateSchema, source, types, made, declared, reading ?_, structs.2 ?_, ?_⟩
  · intro record reached
    obtain ⟨way, leads⟩ := exists_leads_of_reaches reached
    rw [leads.eq_of_crateSchema.2]
    decide
  · intro way record leads
    rw [leads.eq_of_crateSchema.1]
    decide
  · intro all
    have has : crateSchema.HasParameter "Root" { name := "crate" } :=
      ⟨"Root", _, .refl, rfl, List.mem_singleton_self _, rfl⟩
    exact methods.1 all "Root" _ .refl has (by decide)

/-- The method is marked as a name, which the start of a path must not be. -/
theorem crateGroup_illegal : crateSchema.accessors "Root" = .ok crateGroup ∧
    ∃ source items, crateGroup.source = .ok source ∧ Code.read source = some items ∧
      (∃ m ∈ methodsOf items, m.2.name = "r#crate") ∧ ¬IsMethodName "r#crate" := by
  obtain ⟨source, made⟩ : ∃ source, crateGroup.source = .ok source := ⟨_, rfl⟩
  have positions : crateGroup.positions = [⟨[], none, crateGroup⟩] := rfl
  have reading := AccessorGroup.read_source made (by rw [positions]; decide)
  have methods : methodsOf crateGroup.items = [(("RootReference", "r#crate"),
      ⟨"r#crate", "ParameterReference", .reference "crate"⟩)] := rfl
  refine ⟨accessors_crateSchema, source, _, made, reading, ?_, fun named => ?_⟩
  · rw [methods]
    exact ⟨_, List.mem_singleton_self _, rfl⟩
  · have keyword : "crate" ∈ keywords := by decide
    exact (Names.isMethodName_marked_iff keyword).1 named (by decide)

end Schema

end AzurePipelines
