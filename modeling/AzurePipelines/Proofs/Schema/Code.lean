import Mathlib

/-!
# Reading generated code

`Code.read` reads what the source of generated code says, knowing nothing of how it was written.
Comments and attributes are passed over; what is left are imports, types without data, and blocks of
methods that take only the value they are called on and give a parameter reference or another value.
A word is read as a word, whether or not it may be a name.

The tokens of a text are found by a scan that goes over it character by character, so that texts
put together are read one after the other (`Code.Reads.append`).  A type and its methods are read
back from the tokens that they are written with (`Code.readItems_typeTokens`).
-/

namespace AzurePipelines

namespace Code

/-! ## Tokens -/

/-- What code is made of. -/
inductive Token where
  | word (text : String)
  /-- A text in double quotes, with its escapes as they are written. -/
  | quoted (text : String)
  | mark (c : Char)
deriving DecidableEq, Repr

/-- What stands open where a scan of code has come to. -/
inductive Scan where
  | between
  | word (letters : List Char)
  /-- A slash that starts a comment if another one follows. -/
  | slash
  | comment
  | attribute
  | quoted (text : List Char)
  /-- A backslash in quotes, whose next character belongs to it. -/
  | escaped (text : List Char)
deriving DecidableEq, Repr

/-- A character of a word. -/
def isWordCharacter (c : Char) : Bool := c.isAlphanum || c == '_'

/-- What a character opens where nothing is open, or the mark that it is. -/
def Scan.opening (c : Char) : Scan × List Token :=
  if isWordCharacter c then (.word [c], [])
  else if c == '"' then (.quoted [], [])
  else if c == '/' then (.slash, [])
  else if c == '#' then (.attribute, [])
  else if c.isWhitespace then (.between, [])
  else (.between, [.mark c])

/-- The scan after one more character, and the tokens that end before it or with it. -/
def Scan.step : Scan → Char → Scan × List Token
  | .between, c => opening c
  | .word letters, c =>
    -- A number sign after a single `r` belongs to a reserved word that is marked as a name.
    if isWordCharacter c || (c == '#' && letters == ['r']) then (.word (letters ++ [c]), [])
    else ((opening c).1, .word (.ofList letters) :: (opening c).2)
  | .slash, c =>
    if c == '/' then (.comment, []) else ((opening c).1, .mark '/' :: (opening c).2)
  | .comment, c => (if c == '\n' then .between else .comment, [])
  | .attribute, c => (if c == ']' then .between else .attribute, [])
  | .quoted text, c =>
    if c == '"' then (.between, [.quoted (.ofList text)])
    else if c == '\\' then (.escaped text, [])
    else (.quoted (text ++ [c]), [])
  | .escaped text, c => (.quoted (text ++ ['\\', c]), [])

/-- The scan after a text, and the tokens that end in it. -/
def scan (s : Scan) : List Char → Scan × List Token
  | [] => (s, [])
  | c :: text => ((scan (s.step c).1 text).1, (s.step c).2 ++ (scan (s.step c).1 text).2)

/-- What is left at the end of the code; nothing may be open there that has an end of its own. -/
def Scan.ending : Scan → Option (List Token)
  | .between | .comment => some []
  | .word letters => some [.word (.ofList letters)]
  | .slash => some [.mark '/']
  | .attribute | .quoted _ | .escaped _ => none

/-- The tokens of code. -/
def tokens (code : List Char) : Option (List Token) :=
  (scan .between code).1.ending.map ((scan .between code).2 ++ ·)

/-! ## Items -/

/-- What a method gives. -/
inductive Result where
  /-- A new parameter reference. -/
  | reference (path : String)
  /-- The value of a type without data. -/
  | value (type : String)
deriving DecidableEq, Repr

/-- A method that is read. -/
structure MethodItem where
  name : String
  type : String
  result : Result
deriving DecidableEq, Repr

/-- What code declares. -/
inductive Item where
  | use (crate name : String)
  | struct (name : String)
  | methods (type : String) (methods : List MethodItem)
deriving DecidableEq, Repr

mutual

/-- The items that tokens declare. -/
def readItems : List Token → Option (List Item)
  | [] => some []
  | .word "use" :: .word crate :: .mark ':' :: .mark ':' :: .word name :: .mark ';' :: rest =>
    (readItems rest).map (.use crate name :: ·)
  | .word "pub" :: .word "struct" :: .word name :: .mark ';' :: rest =>
    (readItems rest).map (.struct name :: ·)
  | .word "impl" :: .word type :: .mark '\x7b' :: rest => readMethods type [] rest
  | _ => none

/-- The items from within the methods of a type on, where `done` holds those before. -/
def readMethods (type : String) (done : List MethodItem) : List Token → Option (List Item)
  | .mark '\x7d' :: rest => (readItems rest).map (.methods type done :: ·)
  | .word "pub" :: .word "fn" :: .word name :: .mark '(' :: .mark '&' :: .word "self" ::
      .mark ')' :: .mark '-' :: .mark '>' :: .word result :: .mark '\x7b' :: .word value ::
      .mark '\x7d' :: rest =>
    readMethods type (done ++ [⟨name, result, .value value⟩]) rest
  | .word "pub" :: .word "fn" :: .word name :: .mark '(' :: .mark '&' :: .word "self" ::
      .mark ')' :: .mark '-' :: .mark '>' :: .word result :: .mark '\x7b' ::
      .word "ParameterReference" :: .mark ':' :: .mark ':' :: .word "new" :: .mark '(' ::
      .quoted path :: .mark ')' :: .mark '.' :: .word "expect" :: .mark '(' :: .quoted _ ::
      .mark ')' :: .mark '\x7d' :: rest =>
    readMethods type (done ++ [⟨name, result, .reference path⟩]) rest
  | _ => none

end

/-- What the source declares; another text is not read. -/
def read (source : String) : Option (List Item) := (tokens source.toList).bind readItems

/-! ## Scans of texts -/

/-- From `s`, the scan of the text gives the tokens and comes to `after`. -/
def Reads (s : Scan) (text : List Char) (ts : List Token) (after : Scan) : Prop :=
  scan s text = (after, ts)

instance {s after : Scan} {text : List Char} {ts : List Token} :
    Decidable (Reads s text ts after) := inferInstanceAs (Decidable (scan s text = (after, ts)))

theorem Reads.append {s middle after : Scan} {one other : List Char} {ts us : List Token}
    (first : Reads s one ts middle) (second : Reads middle other us after) :
    Reads s (one ++ other) (ts ++ us) after := by
  unfold Reads at *
  induction one generalizing s ts with
  | nil =>
    cases first
    exact second
  | cons c one ih =>
    rw [scan, Prod.mk.injEq] at first
    have rest := ih (Prod.ext first.1 rfl)
    rw [List.cons_append, scan, rest, ← first.2, List.append_assoc]

/-- Texts that each leave nothing open are read one by one. -/
theorem Reads.flatMap {α : Type} {text : α → List Char} {ts : α → List Token} {items : List α}
    (each : ∀ a ∈ items, Reads .between (text a) (ts a) .between) :
    Reads .between (items.flatMap text) (items.flatMap ts) .between := by
  induction items with
  | nil => rfl
  | cons a items ih =>
    rw [List.flatMap_cons, List.flatMap_cons]
    exact (each a List.mem_cons_self).append (ih fun b mem => each b (List.mem_cons_of_mem a mem))

/-- Empty lines between such texts say nothing. -/
theorem Reads.intercalate {α : Type} {text : α → List Char} {ts : α → List Token} {items : List α}
    (each : ∀ a ∈ items, Reads .between (text a) (ts a) .between) :
    Reads .between (['\n'].intercalate (items.map text)) (items.flatMap ts) .between := by
  induction items with
  | nil => rfl
  | cons a items ih =>
    have first := each a List.mem_cons_self
    have rest := ih fun b mem => each b (List.mem_cons_of_mem a mem)
    cases items with
    | nil => simpa using first
    | cons b items =>
      have line : Reads .between ['\n'] [] .between := by decide
      simpa [List.intercalate_cons_cons] using first.append (line.append rest)

/-- A comment goes on to the end of its line. -/
theorem reads_comment {text : List Char} (oneLine : '\n' ∉ text) :
    Reads .comment text [] .comment := by
  induction text with
  | nil => rfl
  | cons c text ih =>
    have other : c ≠ '\n' := fun feed => oneLine (feed ▸ List.mem_cons_self)
    have rest := ih fun mem => oneLine (List.mem_cons_of_mem c mem)
    unfold Reads at *
    simp [scan, Scan.step, other, rest]

/-- A text without quotes and backslashes stands in quotes as it is. -/
theorem reads_quoted {text : List Char} (before : List Char)
    (plain : ∀ c ∈ text, c ≠ '"' ∧ c ≠ '\\') :
    Reads (.quoted before) text [] (.quoted (before ++ text)) := by
  induction text generalizing before with
  | nil => simp [Reads, scan]
  | cons c text ih =>
    obtain ⟨quote, backslash⟩ := plain c List.mem_cons_self
    have rest := ih (before ++ [c]) fun d mem => plain d (List.mem_cons_of_mem c mem)
    unfold Reads at *
    simp [scan, Scan.step, quote, backslash, rest]

theorem reads_word {text : List Char} (before : List Char)
    (letters : ∀ c ∈ text, isWordCharacter c = true) :
    Reads (.word before) text [] (.word (before ++ text)) := by
  induction text generalizing before with
  | nil => simp [Reads, scan]
  | cons c text ih =>
    have letter := letters c List.mem_cons_self
    have rest := ih (before ++ [c]) fun d mem => letters d (List.mem_cons_of_mem c mem)
    unfold Reads at *
    simp [scan, Scan.step, letter, rest]

theorem read_of_reads {source : String} {text : List Char} {ts : List Token}
    (same : source.toList = text) (reads : Reads .between text ts .between) :
    read source = readItems ts := by
  unfold read tokens
  rw [same, reads]
  simp [Scan.ending]

/-! ### Words -/

/-- The text is read as one word. -/
def IsName (text : String) : Prop := Reads .between text.toList [] (.word text.toList)

theorem isName_of_forall {text : String} (nonempty : text.toList ≠ [])
    (letters : ∀ c ∈ text.toList, isWordCharacter c = true) : IsName text := by
  unfold IsName
  obtain ⟨c, rest, shape⟩ := List.exists_cons_of_ne_nil nonempty
  rw [shape] at letters ⊢
  have first : Reads .between [c] [] (.word [c]) := by
    simp [Reads, scan, Scan.step, Scan.opening, letters c List.mem_cons_self]
  exact first.append (reads_word [c] fun d mem => letters d (List.mem_cons_of_mem c mem))

/-- A word that is marked as a name is one word with its mark. -/
theorem isName_marked {text : String} (letters : ∀ c ∈ text.toList, isWordCharacter c = true) :
    IsName ("r#" ++ text) := by
  unfold IsName
  have mark : Reads .between ['r', '#'] [] (.word ['r', '#']) := by decide
  rw [String.toList_append]
  exact mark.append (reads_word ['r', '#'] letters)

theorem isWordCharacter_of_isAlphanum {c : Char} (h : c.isAlphanum = true) :
    isWordCharacter c = true := by
  rw [isWordCharacter, h, Bool.true_or]

/-! ## Tokens of items -/

/-- The tokens that make what a method gives. -/
def Result.tokens : Result → List Token
  | .value type => [.word type]
  | .reference path =>
    [.word "ParameterReference", .mark ':', .mark ':', .word "new", .mark '(', .quoted path,
      .mark ')', .mark '.', .word "expect", .mark '(',
      .quoted "accessor paths are validated when generated", .mark ')']

def MethodItem.tokens (m : MethodItem) : List Token :=
  .word "pub" :: .word "fn" :: .word m.name :: .mark '(' :: .mark '&' :: .word "self" ::
    .mark ')' :: .mark '-' :: .mark '>' :: .word m.type :: .mark '\x7b' ::
    (m.result.tokens ++ [.mark '\x7d'])

/-- The tokens of a type and its methods. -/
def typeTokens (name : String) (methods : List MethodItem) : List Token :=
  .word "pub" :: .word "struct" :: .word name :: .mark ';' :: .word "impl" :: .word name ::
    .mark '\x7b' :: (methods.flatMap MethodItem.tokens ++ [.mark '\x7d'])

theorem readMethods_tokens (type : String) (done : List MethodItem) (m : MethodItem)
    (rest : List Token) :
    readMethods type done (m.tokens ++ rest) = readMethods type (done ++ [m]) rest := by
  obtain ⟨name, returned, result⟩ := m
  cases result with
  | value =>
    simp only [MethodItem.tokens, Result.tokens, List.cons_append, List.nil_append]
    rw [readMethods]
  | reference path =>
    simp only [MethodItem.tokens, Result.tokens, List.cons_append, List.nil_append]
    rw [readMethods]

/-- All methods of a type are read, in their order. -/
theorem readMethods_flatMap_tokens (type : String) (done methods : List MethodItem)
    (rest : List Token) :
    readMethods type done (methods.flatMap MethodItem.tokens ++ rest) =
      readMethods type (done ++ methods) rest := by
  induction methods generalizing done with
  | nil => simp
  | cons m methods ih =>
    rw [List.flatMap_cons, List.append_assoc, readMethods_tokens, ih, List.append_assoc,
      List.singleton_append]

theorem readItems_typeTokens (name : String) (methods : List MethodItem) (rest : List Token) :
    readItems (typeTokens name methods ++ rest) =
      (readItems rest).map ([.struct name, .methods name methods] ++ ·) := by
  have block := readMethods_flatMap_tokens name [] methods (.mark '\x7d' :: rest)
  rw [List.nil_append, readMethods] at block
  simp only [typeTokens, List.cons_append, List.nil_append, List.append_assoc]
  rw [readItems, readItems, block, Option.map_map]
  rfl

end Code

end AzurePipelines
