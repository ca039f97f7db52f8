import AzurePipelines.Proofs.Schema.Identifiers
import Mathlib

/-!
# Words and names

A name is cut into words (`CutIntoWords`), and nothing is lost but what is in no word: the words,
one after the other, are all letters and digits of the name.  Put together with underscores they are
cut into the same words again, so that the name of a method is its own method's name, unless it is a
reserved word and has to be marked (`naming_laws`).
-/

namespace AzurePipelines.Names

/-! ## Cuts -/

/-- Where a word may end: at the end of the text, or before a character that is in no word, or
before a capital letter. -/
inductive EndsWord : List Char → Prop
  | nil : EndsWord []
  | dropped {c : Char} {text : List Char} : c.isAlphanum = false → EndsWord (c :: text)
  | capital {c : Char} {text : List Char} : c.isUpper = true → EndsWord (c :: text)

/-- The text is cut into these words.  A word is a run of letters and digits that stands in the text
up to a place where a word may end, and all that is in no word is neither a letter nor a digit. -/
inductive CutIntoWords : List Char → List (List Char) → Prop
  | nil : CutIntoWords [] []
  | dropped {c : Char} {text : List Char} {words : List (List Char)} :
    c.isAlphanum = false → CutIntoWords text words → CutIntoWords (c :: text) words
  | word {word text : List Char} {words : List (List Char)} :
    word ≠ [] → (∀ c ∈ word, c.isAlphanum = true) → EndsWord text →
    CutIntoWords text words → CutIntoWords (word ++ text) (word :: words)

namespace CutIntoWords

variable {text : List Char} {words : List (List Char)}

/-- The words hold all letters and digits of the text, in their order. -/
theorem flatten_eq (cut : CutIntoWords text words) :
    words.flatten = text.filter Char.isAlphanum := by
  induction cut with
  | nil => rfl
  | dropped other _ ih => rw [ih, List.filter_cons_of_neg (by simp [other])]
  | word _ letters _ _ ih =>
    rw [List.flatten_cons, ih, List.filter_append, List.filter_eq_self.2 letters]

theorem mem (cut : CutIntoWords text words) :
    ∀ word ∈ words, word ≠ [] ∧ ∀ c ∈ word, c.isAlphanum = true := by
  induction cut with
  | nil => exact List.forall_mem_nil _
  | dropped _ _ ih => exact ih
  | word nonempty letters _ _ ih => exact List.forall_mem_cons.2 ⟨⟨nonempty, letters⟩, ih⟩

end CutIntoWords

/-! ## Words of texts -/

variable {previous : Option Char} {c : Char} {text : List Char}

theorem isUpper_of_startsWord {next : Option Char} (starts : startsWord previous c next = true) :
    c.isUpper = true := by
  cases previous with
  | none => cases starts
  | some p => exact (Bool.and_eq_true_iff.1 starts).1

/-- Behind a character that is in no word, words start as at the start of the text. -/
theorem wordsAfter_some_of_dropped (other : c.isAlphanum = false) (text : List Char) :
    wordsAfter (some c) text = wordsAfter none text := by
  simp only [Char.isAlphanum, Char.isAlpha, Bool.or_eq_false_iff] at other
  obtain ⟨⟨notUpper, notLower⟩, notDigit⟩ := other
  cases text with
  | nil => rfl
  | cons d text => simp [wordsAfter, startsWord, notUpper, notLower, notDigit]

theorem wordsAfter_cons_of_dropped (other : c.isAlphanum = false) :
    wordsAfter previous (c :: text) = ([], words text) := by
  simp [wordsAfter, words, other, wordsAfter_some_of_dropped other]

theorem words_cons_of_dropped (other : c.isAlphanum = false) : words (c :: text) = words text := by
  rw [words, wordsAfter_cons_of_dropped other]
  rfl

theorem wordsAfter_cons_of_starts (letter : c.isAlphanum = true)
    (starts : startsWord previous c text.head? = true) :
    wordsAfter previous (c :: text) =
      ([], (c :: (wordsAfter (some c) text).1) :: (wordsAfter (some c) text).2) := by
  simp [wordsAfter, letter, starts]

theorem wordsAfter_cons_of_goesOn (letter : c.isAlphanum = true)
    (goesOn : startsWord previous c text.head? = false) :
    wordsAfter previous (c :: text) =
      (c :: (wordsAfter (some c) text).1, (wordsAfter (some c) text).2) := by
  simp [wordsAfter, letter, goesOn]

/-- What goes on with a word stands in front of the text, and where it ends a word may end; the
other words are cut from the rest. -/
def CutsAfter (previous : Option Char) (text : List Char) : Prop :=
  ∃ rest, text = (wordsAfter previous text).1 ++ rest ∧ EndsWord rest ∧
    CutIntoWords rest (wordsAfter previous text).2

theorem CutsAfter.cutIntoWords (cuts : CutsAfter none text) : CutIntoWords text (words text) := by
  obtain ⟨rest, split, ends, cut⟩ := cuts
  have letters := (isAlphanum_of_mem_wordsAfter none text).1
  unfold words
  cases shape : wordsAfter none text with | mk first others
  simp only [shape] at split cut letters ⊢
  by_cases none : first = []
  · simpa [none, split] using cut
  · simpa [none, split] using CutIntoWords.word none letters ends cut

theorem cutsAfter (previous : Option Char) (text : List Char) : CutsAfter previous text := by
  induction text generalizing previous with
  | nil => exact ⟨[], rfl, .nil, .nil⟩
  | cons c text ih =>
    cases letter : c.isAlphanum with
    | false =>
      rw [CutsAfter, wordsAfter_cons_of_dropped letter]
      exact ⟨c :: text, rfl, .dropped letter, .dropped letter (ih none).cutIntoWords⟩
    | true =>
      obtain ⟨rest, split, ends, cut⟩ := ih (some c)
      have letters : ∀ d ∈ c :: (wordsAfter (some c) text).1, d.isAlphanum = true :=
        List.forall_mem_cons.2 ⟨letter, (isAlphanum_of_mem_wordsAfter (some c) text).1⟩
      have whole : c :: text = (c :: (wordsAfter (some c) text).1) ++ rest := by
        rw [List.cons_append, ← split]
      cases starts : startsWord previous c text.head? with
      | true =>
        rw [CutsAfter, wordsAfter_cons_of_starts letter starts]
        refine ⟨c :: text, rfl, .capital (isUpper_of_startsWord starts), ?_⟩
        rw [whole]
        exact .word (List.cons_ne_nil _ _) letters ends cut
      | false =>
        rw [CutsAfter, wordsAfter_cons_of_goesOn letter starts]
        exact ⟨rest, whole, ends, cut⟩

theorem cutIntoWords_words (text : List Char) : CutIntoWords text (words text) :=
  (cutsAfter none text).cutIntoWords

/-! ## Words of words -/

/-- A word in small letters: letters and digits, none of them a capital. -/
structure IsSmallWord (word : List Char) : Prop where
  nonempty : word ≠ []
  letters : ∀ c ∈ word, c.isAlphanum = true ∧ c.isUpper = false

theorem startsWord_of_small (small : c.isUpper = false) (previous next : Option Char) :
    startsWord previous c next = false := by
  cases previous with
  | none => rfl
  | some p => simp [startsWord, small]

/-- A word in small letters goes on until it ends. -/
theorem wordsAfter_append_of_small {word : List Char}
    (letters : ∀ c ∈ word, c.isAlphanum = true ∧ c.isUpper = false)
    (ends : text.head?.any Char.isAlphanum = false) (previous : Option Char) :
    wordsAfter previous (word ++ text) = (word, words text) := by
  induction word generalizing previous with
  | nil =>
    cases text with
    | nil => rfl
    | cons d text =>
      have other : d.isAlphanum = false := ends
      rw [List.nil_append, wordsAfter_cons_of_dropped other, words_cons_of_dropped other]
  | cons c word ih =>
    rw [List.forall_mem_cons] at letters
    have goesOn := startsWord_of_small letters.1.2 previous (word ++ text).head?
    rw [List.cons_append, wordsAfter_cons_of_goesOn letters.1.1 goesOn, ih letters.2]

/-- A word in small letters is cut off as a whole. -/
theorem words_append_of_small {word : List Char} (isWord : IsSmallWord word)
    (ends : text.head?.any Char.isAlphanum = false) :
    words (word ++ text) = word :: words text := by
  rw [words, wordsAfter_append_of_small isWord.letters ends none]
  simp [isWord.nonempty]

/-- Words in small letters are found again where underscores stand between them. -/
theorem words_intercalate {texts : List (List Char)} (areWords : ∀ word ∈ texts, IsSmallWord word) :
    words (['_'].intercalate texts) = texts := by
  induction texts with
  | nil => rfl
  | cons word texts ih =>
    rw [List.forall_mem_cons] at areWords
    cases texts with
    | nil =>
      have nothing : words [] = [] := rfl
      rw [List.intercalate_singleton, ← List.append_nil word,
        words_append_of_small areWords.1 rfl, nothing, List.append_nil]
    | cons next texts =>
      rw [List.intercalate_cons_cons, List.append_assoc, List.singleton_append,
        words_append_of_small areWords.1 rfl, words_cons_of_dropped rfl, ih areWords.2]

/-- All words of a text become words in small letters. -/
theorem forall_isSmallWord (text : List Char) :
    ∀ word ∈ (words text).map (·.map Char.toLower), IsSmallWord word := by
  refine List.forall_mem_map.2 fun word inWords => ?_
  refine ⟨by simpa using ne_nil_of_mem_words inWords, List.forall_mem_map.2 fun c inWord => ?_⟩
  exact ⟨isAlphanum_toLower (isAlphanum_of_mem_words inWords inWord),
    Char.isUpper_toLower_eq_false c⟩

/-! ## Names of methods -/

/-- A name in small letters, digits and underscores, of which no two stand together, and with no
digit in front. -/
structure IsSnakeCase (name : List Char) : Prop where
  letters : ∀ c ∈ name, c.isLower = true ∨ c.isDigit = true ∨ c = '_'
  start : name.head?.any Char.isDigit = false
  apart : name.IsChain fun c d => c ≠ '_' ∨ d ≠ '_'

theorem IsSmallWord.isLower_or_isDigit {word : List Char} (isWord : IsSmallWord word) :
    ∀ c ∈ word, c.isLower = true ∨ c.isDigit = true := by
  intro c member
  obtain ⟨letter, small⟩ := isWord.letters c member
  simpa [Char.isAlphanum, Char.isAlpha, small] using letter

theorem IsSmallWord.ne_underscore {word : List Char} (isWord : IsSmallWord word) :
    ∀ c ∈ word, c ≠ '_' := by
  rintro c member rfl
  cases (isWord.letters '_' member).1

/-- Words with single underscores between them have no two underscores together. -/
theorem isChain_intercalate {texts : List (List Char)}
    (areWords : ∀ word ∈ texts, IsSmallWord word) :
    (['_'].intercalate texts).head? ≠ some '_' ∧
      (['_'].intercalate texts).IsChain fun c d => c ≠ '_' ∨ d ≠ '_' := by
  induction texts with
  | nil => exact ⟨by simp, .nil⟩
  | cons word texts ih =>
    rw [List.forall_mem_cons] at areWords
    have other := areWords.1.ne_underscore
    have first : word.head? ≠ some '_' := fun starts => other '_' (List.mem_of_head? starts) rfl
    have alone : word.IsChain fun c d => c ≠ '_' ∨ d ≠ '_' :=
      (List.pairwise_of_forall_mem_list fun c member _ _ => .inl (other c member)).isChain
    cases texts with
    | nil => exact ⟨by simpa using first, by simpa using alone⟩
    | cons next texts =>
      obtain ⟨start, apart⟩ := ih areWords.2
      have behind : ('_' :: ['_'].intercalate (next :: texts)).IsChain
          fun c d => c ≠ '_' ∨ d ≠ '_' := by
        refine List.isChain_cons.2 ⟨fun d isFirst => .inr ?_, apart⟩
        rintro rfl
        exact start isFirst
      rw [List.intercalate_cons_cons, List.append_assoc, List.singleton_append,
        List.head?_append_of_ne_nil _ areWords.1.nonempty]
      refine ⟨first, List.isChain_append.2 ⟨alone, behind, fun c isLast _ _ => .inl ?_⟩⟩
      exact other c (List.mem_of_getLast? isLast)

/-- A name is made of nothing but the words in small letters. -/
theorem snakeCase_congr {other : List Char}
    (same : (words text).map (·.map Char.toLower) = (words other).map (·.map Char.toLower)) :
    snakeCase text = snakeCase other := by
  rw [snakeCase, snakeCase, same]

/-- In front of the words there may be an underscore, and no other one follows it. -/
theorem exists_snakeCase_eq (text : List Char) :
    ∃ start, (start = [] ∨ start = ['_']) ∧
      snakeCase text = start ++ ['_'].intercalate ((words text).map (·.map Char.toLower)) := by
  unfold snakeCase
  cases shape : ['_'].intercalate ((words text).map (·.map Char.toLower)) with
  | nil => exact ⟨['_'], .inr rfl, rfl⟩
  | cons c name =>
    by_cases digit : c.isDigit = true
    · exact ⟨['_'], .inr rfl, by simp [digit]⟩
    · exact ⟨[], .inl rfl, by simp [digit]⟩

theorem words_snakeCase (text : List Char) :
    words (snakeCase text) = (words text).map (·.map Char.toLower) := by
  have whole := words_intercalate (forall_isSmallWord text)
  obtain ⟨start, rfl | rfl, shape⟩ := exists_snakeCase_eq text
  · rw [shape, List.nil_append, whole]
  · rw [shape, List.singleton_append, words_cons_of_dropped rfl, whole]

/-- A name in small letters and underscores has itself as its name. -/
theorem snakeCase_snakeCase (text : List Char) : snakeCase (snakeCase text) = snakeCase text := by
  apply snakeCase_congr
  rw [words_snakeCase, List.map_map]
  refine List.map_congr_left fun word _ => ?_
  simp

theorem isSnakeCase_snakeCase (text : List Char) : IsSnakeCase (snakeCase text) where
  letters := by
    have inWords : ∀ c ∈ ['_'].intercalate ((words text).map (·.map Char.toLower)),
        c.isLower = true ∨ c.isDigit = true ∨ c = '_' :=
      forall_mem_intercalate (.inr (.inr rfl)) fun _ member c inWord =>
        ((forall_isSmallWord text _ member).isLower_or_isDigit c inWord).imp_right .inl
    obtain ⟨start, rfl | rfl, shape⟩ := exists_snakeCase_eq text
    · rwa [shape]
    · rw [shape]
      exact List.forall_mem_cons.2 ⟨.inr (.inr rfl), inWords⟩
  start := isDigit_head_snakeCase text
  apart := by
    obtain ⟨first, apart⟩ := isChain_intercalate (forall_isSmallWord text)
    obtain ⟨start, rfl | rfl, shape⟩ := exists_snakeCase_eq text
    · rwa [shape]
    · rw [shape, List.singleton_append, List.isChain_cons]
      refine ⟨fun d isFirst => .inr ?_, apart⟩
      rintro rfl
      exact first isFirst

/-- A name without the mark of a reserved word. -/
def unmarked : List Char → List Char
  | 'r' :: '#' :: name => name
  | name => name

theorem unmarked_of_isSnakeCase {name : List Char} (isName : IsSnakeCase name) :
    unmarked name = name := by
  unfold unmarked
  split
  · rename_i name
    have mark := isName.letters '#' (by simp)
    simp [Char.isLower, Char.isDigit] at mark
  · rfl

variable {member : String}

theorem toList_methodName_of_mem (h : String.ofList (snakeCase member.toList) ∈ reservedWords) :
    (methodName member).toList = 'r' :: '#' :: snakeCase member.toList := by
  simp [methodName, h]

theorem methodName_of_notMem (h : String.ofList (snakeCase member.toList) ∉ reservedWords) :
    methodName member = String.ofList (snakeCase member.toList) := by
  simp [methodName, h]

theorem unmarked_methodName (member : String) :
    unmarked (methodName member).toList = snakeCase member.toList := by
  by_cases reserved : String.ofList (snakeCase member.toList) ∈ reservedWords
  · rw [toList_methodName_of_mem reserved, unmarked]
  · rw [methodName_of_notMem reserved, String.toList_ofList,
      unmarked_of_isSnakeCase (isSnakeCase_snakeCase _)]

/-- The mark of a reserved word is a word by itself. -/
theorem words_marked (name : List Char) : words ('r' :: '#' :: name) = ['r'] :: words name := by
  have mark : IsSmallWord ['r'] :=
    ⟨List.cons_ne_nil _ _, List.forall_mem_singleton.2 ⟨rfl, rfl⟩⟩
  have dropped : words ('#' :: name) = words name := words_cons_of_dropped rfl
  have whole : words (['r'] ++ '#' :: name) = ['r'] :: words ('#' :: name) :=
    words_append_of_small mark rfl
  rwa [dropped] at whole

/-- A method has its own name, unless that is marked: then it has one more word. -/
theorem methodName_methodName_iff (member : String) :
    methodName (methodName member) = methodName member ↔
      String.ofList (snakeCase member.toList) ∉ reservedWords := by
  by_cases reserved : String.ofList (snakeCase member.toList) ∈ reservedWords
  · refine iff_of_false (fun same => ?_) (not_not_intro reserved)
    have names : snakeCase (methodName member).toList = snakeCase member.toList := by
      rw [← unmarked_methodName (methodName member), same, unmarked_methodName]
    have counts := congrArg (fun name => (words name).length) names
    simp only [words_snakeCase, toList_methodName_of_mem reserved, words_marked] at counts
    simp at counts
  · refine iff_of_true ?_ reserved
    have same : String.ofList (snakeCase (methodName member).toList) =
        String.ofList (snakeCase member.toList) := by
      rw [methodName_of_notMem reserved, String.toList_ofList, snakeCase_snakeCase]
    rw [methodName_of_notMem (by rwa [same]), same, methodName_of_notMem reserved]

/-- **What names are made of.**  Every name is cut into its words, which are all its letters and
digits in their order.  The name of its method, without a mark, is in small letters, digits and
single underscores and starts with no digit; it is the name of its own method, unless it is a
reserved word. -/
theorem naming_laws (name : String) :
    CutIntoWords name.toList (words name.toList) ∧
      (words name.toList).flatten = name.toList.filter Char.isAlphanum ∧
      (∀ word ∈ words name.toList, word ≠ [] ∧ ∀ c ∈ word, c.isAlphanum = true) ∧
      IsSnakeCase (unmarked (methodName name).toList) ∧
      (methodName (methodName name) = methodName name ↔
        String.ofList (unmarked (methodName name).toList) ∉ reservedWords) := by
  have cut := cutIntoWords_words name.toList
  rw [unmarked_methodName]
  exact ⟨cut, cut.flatten_eq, cut.mem, isSnakeCase_snakeCase _, methodName_methodName_iff name⟩

/-- A name with a capital in a run of capitals, a dropped character and a digit behind it. -/
theorem naming_laws_server :
    "Server".toList ∈ words "HTTPServer-2nd".toList ∧ "Server".toList ≠ [] ∧
      methodName "HTTPServer-2nd" = "http_server_2nd" ∧
      methodName "http_server_2nd" = "http_server_2nd" := by
  have member : "Server".toList ∈ words "HTTPServer-2nd".toList := by decide +kernel
  have name : methodName "HTTPServer-2nd" = "http_server_2nd" := by decide +kernel
  obtain ⟨_, _, filled, _, stable⟩ := naming_laws "HTTPServer-2nd"
  rw [name] at stable
  exact ⟨member, (filled _ member).1, name, stable.2 (by decide +kernel)⟩

/-- The mark of a reserved word is read as a word. -/
example : methodName "type" = "r#type" ∧ methodName "r#type" = "r_type" := by decide +kernel

end AzurePipelines.Names
