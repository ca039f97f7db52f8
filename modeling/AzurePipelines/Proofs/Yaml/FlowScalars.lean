import AzurePipelines.Proofs.Yaml.SectionBreaks
import Mathlib

/-!
# Scalars of one line

The rules for a scalar that starts and ends on one line, apart from the reader that also folds
lines: one rule for each of the three styles, and which of them holds is seen from the first
character (`flowScalar?`).  By these rules every text is what `inline` writes of it
(`flowScalar?_inline`), with nothing or a colon behind it.  So a line of a key and a value is split
at the colon that was put between them.
-/

namespace AzurePipelines.Yaml

/-! ## The rules -/

/-- The text up to the first single quote that is not one of a pair, and what follows that quote.  A
pair reads as one quote. -/
def untilSingleQuote : List Char → Option (List Char × List Char)
  | [] => none
  | '\x27' :: '\x27' :: rest => prepend ['\x27'] (untilSingleQuote rest)
  | '\x27' :: rest => some ([], rest)
  | c :: rest => prepend [c] (untilSingleQuote rest)

/-- The character that a backslash and one more character stand for. -/
def shortEscape? : Char → Option Char
  | '\\' => some '\\'
  | '"' => some '"'
  | 'n' => some '\n'
  | 'r' => some '\r'
  | 't' => some '\t'
  | '0' => some '\x00'
  | _ => none

/-- The text up to the first double quote without a backslash before it, and what follows that
quote.  A backslash and `u` stand before the four digits of a character's code. -/
def untilDoubleQuote : List Char → Option (List Char × List Char)
  | [] => none
  | '"' :: rest => some ([], rest)
  | '\\' :: 'u' :: a :: b :: c :: d :: rest => do
    prepend [← charOfHex? [a, b, c, d]] (untilDoubleQuote rest)
  | '\\' :: c :: rest => do prepend [← shortEscape? c] (untilDoubleQuote rest)
  | c :: rest => prepend [c] (untilDoubleQuote rest)

/-- What stands before the first colon with a blank or nothing behind it, and before the first
number sign with a blank before it. -/
def untilSeparator (afterBlank : Bool) : List Char → List Char × List Char
  | [] => ([], [])
  | c :: rest =>
    if (c == ':' && blankNext rest) || (c == '#' && afterBlank) then ([], c :: rest)
    else (untilSeparator (isSpaceOrTab c) rest).map (List.cons c) id

/-- The text of the scalar at the front of the line, and what follows it.  The blanks behind a plain
scalar are not of its text. -/
def flowScalar? : List Char → Option (List Char × List Char)
  | [] => none
  | c :: rest =>
    if c == '\x27' then untilSingleQuote rest
    else if c == '"' then untilDoubleQuote rest
    else if startsPlain false c rest then
      some ((untilSeparator false (c :: rest)).map (List.rdropWhile isSpaceOrTab) id)
    else none

/-- The text of the scalar that the whole line is. -/
def decoded? (line : List Char) : Option (List Char) :=
  match flowScalar? line with
  | some (text, []) => some text
  | _ => none

/-- The key at the front of the line, and what follows its colon. -/
def keyAndRest? (line : List Char) : Option (List Char × List Char) := do
  let (key, behind) ← flowScalar? line
  match behind.dropWhile isSpaceOrTab with
  | ':' :: rest => if blankNext rest then some (key, rest) else none
  | _ => none

/-- The key and the value that the line consists of. -/
def keyAndValue? (line : List Char) : Option (List Char × List Char) := do
  let (key, rest) ← keyAndRest? line
  some (key, ← decoded? (rest.dropWhile isSpaceOrTab))

/-- A text that means itself: no part of it means anything else on a line. -/
structure IsPlain (text : List Char) : Prop where
  nonempty : text ≠ []
  first : ∀ c ∈ text.head?, Text.isBlank c = false ∧ isIndicator c = false
  last : ∀ c ∈ text.getLast?, Text.isBlank c = false
  colon : ∀ before rest, text = before ++ ':' :: rest → blankNext rest = false
  sign : ∀ before c rest, text = before ++ c :: '#' :: rest → isSpaceOrTab c = false

/-! ## Quotes -/

theorem untilSingleQuote_doubleQuotes {text rest : List Char} (closed : rest.head? ≠ some '\x27') :
    untilSingleQuote (Text.doubleQuotes text ++ '\x27' :: rest) = some (text, rest) := by
  induction text with
  | nil =>
    cases rest with
    | nil => rfl
    | cons c rest =>
      have notQuote : c ≠ '\x27' := fun h => closed (by rw [h]; rfl)
      simp [Text.doubleQuotes, untilSingleQuote, notQuote]
  | cons c text ih =>
    by_cases quote : c = '\x27'
    · subst quote
      have shape : Text.doubleQuotes ('\x27' :: text) ++ '\x27' :: rest =
          '\x27' :: '\x27' :: (Text.doubleQuotes text ++ '\x27' :: rest) := rfl
      rw [shape, untilSingleQuote, ih]
      rfl
    · have shape : Text.doubleQuotes (c :: text) ++ '\x27' :: rest =
          c :: (Text.doubleQuotes text ++ '\x27' :: rest) := by
        simp [Text.doubleQuotes, quote]
      rw [shape, untilSingleQuote, ih]
      · rfl
      all_goals simp [quote]

/-- What is written of a character between double quotes reads as the character. -/
theorem untilDoubleQuote_escaped (c : Char) (rest : List Char) :
    untilDoubleQuote (escaped c ++ rest) = prepend [c] (untilDoubleQuote rest) := by
  by_cases short : c ∈ ['\\', '"', '\n', '\r', '\t', '\x00']
  · simp only [List.mem_cons, List.not_mem_nil, or_false] at short
    rcases short with rfl | rfl | rfl | rfl | rfl | rfl <;> rfl
  rcases escaped_cases c with ⟨member, _⟩ | ⟨unprintable, shape⟩ | ⟨_, shape⟩
  · exact absurd member short
  · have digits := charOfHex?_fourHexDigits (toNat_lt_of_isUnprintable unprintable)
    rw [shape]
    simp only [fourHexDigits, List.map_cons, List.map_nil, List.cons_append, List.nil_append]
      at digits ⊢
    rw [untilDoubleQuote, digits]
    rfl
  · simp only [List.mem_cons, List.not_mem_nil, or_false, not_or] at short
    obtain ⟨backslash, quote, _⟩ := short
    rw [shape, List.singleton_append, untilDoubleQuote]
    all_goals simp [backslash, quote]

theorem untilDoubleQuote_flatMap_escaped (text rest : List Char) :
    untilDoubleQuote (text.flatMap escaped ++ '"' :: rest) = some (text, rest) := by
  induction text with
  | nil => rfl
  | cons c text ih =>
    rw [List.flatMap_cons, List.append_assoc, untilDoubleQuote_escaped, ih]
    rfl

theorem flowScalar?_quoted (text : List Char) {rest : List Char}
    (closed : rest.head? ≠ some '\x27') :
    flowScalar? (Text.quoted text ++ rest) = some (text, rest) := by
  have shape : Text.quoted text ++ rest =
      '\x27' :: (Text.doubleQuotes text ++ '\x27' :: rest) := by simp [Text.quoted]
  rw [shape, flowScalar?, if_pos (by rfl), untilSingleQuote_doubleQuotes closed]

theorem flowScalar?_doubleQuoted (text rest : List Char) :
    flowScalar? (doubleQuoted text ++ rest) = some (text, rest) := by
  have shape : doubleQuoted text ++ rest = '"' :: (text.flatMap escaped ++ '"' :: rest) := by
    simp [doubleQuoted]
  rw [shape, flowScalar?, if_neg (by decide), if_pos (by rfl), untilDoubleQuote_flatMap_escaped]

/-! ## Plain texts -/

namespace ReadsPlain

theorem of_append {before rest : List Char} (plain : ReadsPlain (before ++ rest)) :
    ReadsPlain rest := by
  induction before with
  | nil => exact plain
  | cons c before ih =>
    rw [List.cons_append] at plain
    generalize whole : before ++ rest = text at plain ih
    cases plain with
    | blank _ _ tail => exact ih tail
    | other _ _ _ tail => exact ih tail

theorem blankNext_eq_false {before rest : List Char}
    (plain : ReadsPlain (before ++ ':' :: rest)) : blankNext rest = false := by
  cases plain.of_append with
  | blank blank _ _ => cases blank
  | other _ _ colon _ => exact colon rfl

theorem isSpaceOrTab_eq_false {before rest : List Char} {c : Char}
    (plain : ReadsPlain (before ++ c :: '#' :: rest)) : isSpaceOrTab c = false := by
  cases plain.of_append with
  | blank _ notSign _ => exact absurd rfl notSign
  | other _ notBlank _ _ => exact notBlank

/-- A plain text has no separator before its end.  Behind a blank it may not start with a number
sign. -/
theorem untilSeparator {text rest : List Char} (plain : ReadsPlain text) (ends : EndsScalar rest)
    (afterBlank : Bool) (opens : afterBlank = true → text.head? ≠ some '#') :
    untilSeparator afterBlank (text ++ rest) = (text, rest) := by
  -- Only a number sign asks what stands before it, so the text may start behind a blank or not.
  induction plain generalizing afterBlank with
  | nil =>
    cases ends with
    | nil => rfl
    | colon blank => simp [Yaml.untilSeparator, blank]
  | @blank c d text isBlank notSign _ ih =>
    have notColon : c ≠ ':' := by
      rintro rfl
      cases isBlank
    have notHash : c ≠ '#' := by
      rintro rfl
      cases isBlank
    have tail := ih (isSpaceOrTab c) fun _ => by simpa using notSign
    rw [List.cons_append, Yaml.untilSeparator, tail]
    simp [notColon, notHash]
  | @other c text _ notBlank colon _ ih =>
    have tail := ih (isSpaceOrTab c) fun blank => by simp [notBlank] at blank
    have goesOn := colon_goesOn colon rest
    have notComment : (c == '#' && afterBlank) = false := by
      cases afterBlank with
      | false => simp
      | true => simpa using opens rfl
    rw [List.cons_append, Yaml.untilSeparator, tail]
    simp [goesOn, notComment]

end ReadsPlain

theorem isPlain_of_styleOf {text : List Char} (style : styleOf text = .plain) : IsPlain text := by
  obtain ⟨_, _, _, plain, _⟩ := readsPlain_of_styleOf style
  match text with
  | [] => cases style
  | first :: tail =>
    have unquoted := needsQuotes_of_styleOf style
    simp only [needsQuotes, Bool.or_eq_false_iff] at unquoted
    obtain ⟨⟨⟨⟨⟨⟨firstBlank, lastBlank⟩, indicator⟩, _⟩, _⟩, _⟩, _⟩ := unquoted
    refine
      { nonempty := List.cons_ne_nil first tail
        first := fun c head => ?_
        last := fun c last => ?_
        colon := fun before rest shape => (shape ▸ plain).blankNext_eq_false
        sign := fun before c rest shape => (shape ▸ plain).isSpaceOrTab_eq_false }
    · obtain rfl := Option.some.inj head
      exact ⟨firstBlank, indicator⟩
    · rw [Option.mem_def, List.getLast?_eq_some_getLast (List.cons_ne_nil first tail)] at last
      obtain rfl := Option.some.inj last
      exact lastBlank

theorem IsPlain.rdropWhile {text : List Char} (plain : IsPlain text) :
    text.rdropWhile isSpaceOrTab = text := by
  rw [List.rdropWhile_eq_self_iff]
  intro nonempty
  have last := plain.last _ (List.getLast?_eq_some_getLast nonempty)
  simp [isSpaceOrTab_eq_false_of_isBlank last]

theorem flowScalar?_of_styleOf {text rest : List Char} (style : styleOf text = .plain)
    (ends : EndsScalar rest) : flowScalar? (text ++ rest) = some (text, rest) := by
  have plain := isPlain_of_styleOf style
  obtain ⟨first, tail, rfl, reads, starts⟩ := readsPlain_of_styleOf style
  have indicator := (plain.first first rfl).2
  have notSingle : first ≠ '\x27' := by
    rintro rfl
    cases indicator
  have notDouble : first ≠ '"' := by
    rintro rfl
    cases indicator
  have read := reads.untilSeparator ends false (by simp)
  rw [List.cons_append] at read ⊢
  simp [flowScalar?, notSingle, notDouble, starts, read, plain.rdropWhile]

/-! ## All styles -/

/-- **Every text is what is written of it on one line.** -/
theorem flowScalar?_inline (text : List Char) {rest : List Char} (ends : EndsScalar rest) :
    flowScalar? (inline text ++ rest) = some (text, rest) := by
  cases style : styleOf text with
  | plain =>
    rw [inline, style]
    exact flowScalar?_of_styleOf style ends
  | singleQuoted =>
    rw [inline, style]
    exact flowScalar?_quoted text ends.head?_ne_quote
  | doubleQuoted =>
    rw [inline, style]
    exact flowScalar?_doubleQuoted text rest
  | literal =>
    rw [inline, style]
    exact flowScalar?_doubleQuoted text rest

theorem decoded?_eq_some {line text : List Char} (h : flowScalar? (line ++ []) = some (text, [])) :
    decoded? line = some text := by
  rw [List.append_nil] at h
  rw [decoded?, h]

/-- A text without quotes around it stands for itself. -/
theorem inline_cases (text : List Char) :
    (inline text).head? = some '\x27' ∨ (inline text).head? = some '"' ∨
      (inline text = text ∧ IsPlain text) := by
  cases style : styleOf text with
  | plain =>
    rw [inline, style]
    exact .inr (.inr ⟨rfl, isPlain_of_styleOf style⟩)
  | singleQuoted =>
    rw [inline, style]
    exact .inl rfl
  | doubleQuoted =>
    rw [inline, style]
    exact .inr (.inl rfl)
  | literal =>
    rw [inline, style]
    exact .inr (.inl rfl)

theorem dropWhile_inline (text : List Char) :
    (' ' :: inline text).dropWhile isSpaceOrTab = inline text := by
  have visible : ∀ c ∈ (inline text).head?, isSpaceOrTab c = false := by
    intro c head
    rcases inline_cases text with quote | quote | ⟨same, plain⟩
    · obtain rfl := Option.mem_unique head quote
      rfl
    · obtain rfl := Option.mem_unique head quote
      rfl
    · rw [same] at head
      exact isSpaceOrTab_eq_false_of_isBlank (plain.first c head).1
  rw [List.dropWhile_cons_of_pos (by rfl)]
  cases shape : inline text with
  | nil => rfl
  | cons c line =>
    rw [shape] at visible
    rw [List.dropWhile_cons_of_neg (by simp [visible c rfl])]

theorem keyAndRest?_inline (key : List Char) {rest : List Char} (blank : blankNext rest = true) :
    keyAndRest? (inline key ++ ':' :: rest) = some (key, rest) := by
  have notBlank : isSpaceOrTab ':' = false := rfl
  simp [keyAndRest?, flowScalar?_inline key (.colon blank), notBlank, blank]

theorem keyAndValue?_inline (key value : List Char) :
    keyAndValue? (inline key ++ ':' :: ' ' :: inline value) = some (key, value) := by
  have blank : blankNext (' ' :: inline value) = true := rfl
  have split := keyAndRest?_inline key blank
  have read := decoded?_eq_some (flowScalar?_inline value .nil)
  rw [keyAndValue?, split]
  simp [dropWhile_inline, read]

/-- **Texts on one line are decoded.**  What is written of a text has no line break, it is decoded
to the text, and without quotes it is the text itself, which is plain.  Hence different texts are
written differently, and the colon behind a key is found again, whatever the key and the value. -/
theorem inline_decodes :
    (∀ text : List Char,
      (∀ c ∈ inline text, c ∉ lineBreaks) ∧
      decoded? (inline text) = some text ∧
      ((inline text).head? = some '\x27' ∨ (inline text).head? = some '"' ∨
        (inline text = text ∧ IsPlain text))) ∧
    Function.Injective inline ∧
    (∀ key rest : List Char, blankNext rest = true →
      keyAndRest? (inline key ++ ':' :: rest) = some (key, rest)) ∧
    ∀ key value : List Char,
      keyAndValue? (inline key ++ ':' :: ' ' :: inline value) = some (key, value) := by
  have decodes (text : List Char) : decoded? (inline text) = some text :=
    decoded?_eq_some (flowScalar?_inline text .nil)
  refine ⟨fun text => ⟨?_, decodes text, inline_cases text⟩, ?_,
    fun key rest => keyAndRest?_inline key, keyAndValue?_inline⟩
  · exact fun c member => notMem_lineBreaks_of_isPrintable (isPrintable_of_mem_inline member)
  · intro text other same
    have first := decodes text
    rw [same, decodes other] at first
    exact (Option.some.inj first).symm

/-- A key with a colon before a blank, in front of a value with a quote in it. -/
theorem inline_decodes_quoted :
    inline "a: b".toList ++ ':' :: " it's".toList = "'a: b': it's".toList ∧
    keyAndRest? (inline "a: b".toList ++ ':' :: " it's".toList) =
      some ("a: b".toList, " it's".toList) ∧
    '\n' ∉ inline "a\nb".toList := by
  obtain ⟨written, _, split, _⟩ := inline_decodes
  refine ⟨by decide, split _ _ (by decide), fun feed => ?_⟩
  exact (written "a\nb".toList).1 '\n' feed (by decide)

example : keyAndValue? "'it''s: #':  \"\\u0007: \\\"\"".toList =
    some ("it's: #".toList, "\x07: \"".toList) := by decide
example : decoded? "a #b".toList = none := by decide

end AzurePipelines.Yaml
