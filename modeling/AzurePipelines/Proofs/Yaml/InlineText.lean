import AzurePipelines.Proofs.Yaml.Blocks
import Mathlib

/-!
# Texts on one line are read back

Whatever style `inline` chooses for a text, `lineScalar` reads the text back and stops where it ends
(`lineScalar_inline`): between single quotes only a quote is written twice, between double quotes
every character that may not stand on a line is escaped, and a plain text holds nothing that would
end it early.  What follows may be nothing, or the colon after a key (`EndsScalar`).
-/

namespace AzurePipelines.Yaml

/-! ## Printable characters -/

/-- A character that may stand on a line as it is. -/
def isPrintable (c : Char) : Bool := !isUnprintable c && c != '\n'

theorem isPrintable_eq_false_of_isBreak {c : Char} (h : isBreak c = true) :
    isPrintable c = false := by
  simp only [isBreak, Bool.or_eq_true, beq_iff_eq] at h
  rcases h with (rfl | rfl) | rfl <;> rfl

theorem isBreak_eq_false_of_isPrintable {c : Char} (h : isPrintable c = true) :
    isBreak c = false := by
  cases hb : isBreak c with
  | false => rfl
  | true => rw [isPrintable_eq_false_of_isBreak hb] at h; cases h

theorem isSpaceOrTab_eq_false_of_isBlank {c : Char} (h : Text.isBlank c = false) :
    isSpaceOrTab c = false := by
  have notSpace : c ≠ ' ' := by
    rintro rfl
    cases h
  have notTab : c ≠ '\t' := by
    rintro rfl
    cases h
  simp [isSpaceOrTab, notSpace, notTab]

/-- What may follow a scalar on its line: nothing, or the colon after a key. -/
inductive EndsScalar : List Char → Prop
  | nil : EndsScalar []
  | colon {rest : List Char} : blankNext rest = true → EndsScalar (':' :: rest)

theorem EndsScalar.head?_ne_quote {rest : List Char} (h : EndsScalar rest) :
    rest.head? ≠ some '\x27' := by
  cases h with
  | nil => simp
  | colon _ => simp

/-- Before any line break, a blank adds to the gap. -/
@[simp] theorem Gap.blank_of_unbroken (before : List Char) (c : Char) :
    Gap.blank ⟨before, false⟩ c = ⟨before ++ [c], false⟩ := rfl

/-! ## Single quotes -/

theorem readSingleQuoted_doubleQuotes {text rest : List Char} (before : List Char)
    (printable : ∀ c ∈ text, isPrintable c = true) (closed : rest.head? ≠ some '\x27') :
    readSingleQuoted ⟨before, false⟩ (Text.doubleQuotes text ++ '\x27' :: rest) =
      some (before ++ text, rest) := by
  induction text generalizing before with
  | nil =>
    cases rest with
    | nil => simp [Text.doubleQuotes, readSingleQuoted]
    | cons c rest =>
      have notQuote : c ≠ '\x27' := fun h => closed (by rw [h]; rfl)
      simp [Text.doubleQuotes, readSingleQuoted, notQuote]
  | cons c text ih =>
    have tail := fun before => ih before fun d hd => printable d (List.mem_cons_of_mem c hd)
    by_cases quote : c = '\x27'
    · subst quote
      have shape : Text.doubleQuotes ('\x27' :: text) ++ '\x27' :: rest =
          '\x27' :: '\x27' :: (Text.doubleQuotes text ++ '\x27' :: rest) := rfl
      rw [shape, readSingleQuoted, tail]
      simp [prepend]
    · have shape : Text.doubleQuotes (c :: text) ++ '\x27' :: rest =
          c :: (Text.doubleQuotes text ++ '\x27' :: rest) := by
        simp [Text.doubleQuotes, quote]
      have unbreaking := isBreak_eq_false_of_isPrintable (printable c List.mem_cons_self)
      rw [shape, readSingleQuoted]
      · by_cases blank : isSpaceOrTab c = true
        · simp [quote, unbreaking, blank, tail]
        · simp [quote, unbreaking, blank, tail, prepend]
      · exact fun _ h _ => quote h

/-! ## Double quotes -/

theorem hexDigit?_upperHexDigit : ∀ n < 16, hexDigit? (upperHexDigit n) = some n := by decide

theorem charOfHex?_fourHexDigits {c : Char} (h : c.toNat < 65536) :
    charOfHex? (fourHexDigits c.toNat) = some c := by
  have digit (k : Nat) : hexDigit? (upperHexDigit (k % 16)) = some (k % 16) :=
    hexDigit?_upperHexDigit _ (Nat.mod_lt _ (by decide))
  have value : 16 * (16 * (16 * (16 * 0 + c.toNat / 4096 % 16) + c.toNat / 256 % 16) +
      c.toNat / 16 % 16) + c.toNat % 16 = c.toNat := by omega
  have valid : c.toNat.isValidChar := c.valid
  simp only [charOfHex?, fourHexDigits, List.map_cons, List.map_nil, List.foldlM_cons,
    List.foldlM_nil, digit, Option.map_some, Option.bind_eq_bind, Option.bind_some, Option.pure_def,
    value]
  rw [if_pos valid, Char.ofNat_toNat]

theorem toNat_lt_of_isUnprintable {c : Char} (h : isUnprintable c = true) : c.toNat < 65536 := by
  simp only [isUnprintable, Text.isControl, Bool.or_eq_true, Bool.and_eq_true, beq_iff_eq,
    decide_eq_true_eq] at h
  rcases h with ((⟨⟨h, _⟩, _⟩ | rfl) | rfl) | rfl
  · omega
  all_goals decide

/-- Every character is read back from what it is between double quotes. -/
theorem readDoubleQuoted_escaped (c : Char) {rest text after : List Char} (before : List Char)
    (tail : ∀ before, readDoubleQuoted ⟨before, false⟩ rest = some (before ++ text, after)) :
    readDoubleQuoted ⟨before, false⟩ (escaped c ++ rest) = some (before ++ c :: text, after) := by
  by_cases short : c ∈ ['\\', '"', '\n', '\r', '\t', '\x00']
  · simp only [List.mem_cons, List.not_mem_nil, or_false] at short
    rcases short with rfl | rfl | rfl | rfl | rfl | rfl <;>
      simp [escaped, readDoubleQuoted, unescaped?, isBreak, tail, prepend]
  simp only [List.mem_cons, List.not_mem_nil, or_false, not_or] at short
  obtain ⟨backslash, quote, feed, carriage, tab, null⟩ := short
  cases unprintable : isUnprintable c with
  | true =>
    have digits := charOfHex?_fourHexDigits (toNat_lt_of_isUnprintable unprintable)
    have shape : escaped c ++ rest = '\\' :: 'u' :: (fourHexDigits c.toNat ++ rest) := by
      simp [escaped, backslash, quote, feed, carriage, tab, null, unprintable]
    rw [shape]
    simp only [fourHexDigits, List.map_cons, List.map_nil, List.cons_append, List.nil_append]
      at digits ⊢
    rw [readDoubleQuoted, digits]
    simp [tail, prepend]
  | false =>
    have shape : escaped c ++ rest = c :: rest := by
      simp [escaped, backslash, quote, feed, carriage, tab, null, unprintable]
    have unbreaking : isBreak c = false :=
      isBreak_eq_false_of_isPrintable (by simp [isPrintable, unprintable, feed])
    rw [shape, readDoubleQuoted]
    · by_cases blank : isSpaceOrTab c = true
      · simp [quote, unbreaking, blank, tail]
      · simp [quote, unbreaking, blank, tail, prepend]
    all_goals simp [backslash]

theorem readDoubleQuoted_flatMap_escaped (before text rest : List Char) :
    readDoubleQuoted ⟨before, false⟩ (text.flatMap escaped ++ '"' :: rest) =
      some (before ++ text, rest) := by
  induction text generalizing before with
  | nil => simp [readDoubleQuoted]
  | cons c text ih =>
    rw [List.flatMap_cons, List.append_assoc]
    exact readDoubleQuoted_escaped c before ih

/-! ## Plain texts -/

/-- A text that is read as it is: no blank stands at its end or before a number sign, and no colon
at its end or before a blank. -/
inductive ReadsPlain : List Char → Prop
  | nil : ReadsPlain []
  | blank {c d : Char} {text : List Char} :
    isSpaceOrTab c = true → d ≠ '#' → ReadsPlain (d :: text) → ReadsPlain (c :: d :: text)
  | other {c : Char} {text : List Char} :
    isBreak c = false → isSpaceOrTab c = false → (c = ':' → blankNext text = false) →
    ReadsPlain text → ReadsPlain (c :: text)

/-- A colon that ends no plain text ends none in front of anything. -/
theorem colon_goesOn {c : Char} {text : List Char} (colon : c = ':' → blankNext text = false)
    (rest : List Char) : (c == ':' && blankNext (text ++ rest)) = false := by
  by_cases isColon : c = ':'
  · cases text with
    | nil => exact absurd (colon isColon) (by decide)
    | cons d text => simpa [isColon, blankNext] using colon isColon
  · simp [isColon]

/-- A plain text is read to its end.  After a gap it may not start with a number sign, which would
start a comment there. -/
theorem ReadsPlain.readPlain {text rest : List Char} (plain : ReadsPlain text)
    (ends : EndsScalar rest) (column : Nat) (before : List Char)
    (opens : before = [] ∨ ∃ c tail, text = c :: tail ∧ c ≠ '#') :
    readPlain false 0 column ⟨before, false⟩ (text ++ rest) = some (before ++ text, rest) := by
  induction plain generalizing column before with
  | nil =>
    obtain rfl : before = [] := by simpa using opens
    cases ends with
    | nil => rfl
    | colon blank => simp [Yaml.readPlain, isBreak, isSpaceOrTab, blank]
  | @blank c d text isBlank notSign _ ih =>
    have unbreaking : isBreak c = false := by
      simp only [isSpaceOrTab, Bool.or_eq_true, beq_iff_eq] at isBlank
      rcases isBlank with rfl | rfl <;> rfl
    have tail := ih (column + 1) (before ++ [c]) (.inr ⟨d, text, rfl, notSign⟩)
    rw [List.cons_append, Yaml.readPlain]
    simpa [unbreaking, isBlank] using tail
  | @other c text unbreaking notBlank colon _ ih =>
    have tail := ih (column + 1) [] (.inl rfl)
    have goesOn := colon_goesOn colon rest
    have notComment : (c == '#' && (⟨before, false⟩ : Gap) != {}) = false := by
      rcases opens with rfl | ⟨d, tail, same, notSign⟩
      · simp
      · cases same
        simp [notSign]
    rw [List.cons_append, Yaml.readPlain]
    simp [unbreaking, notBlank, notComment, goesOn, tail, prepend]

/-- What `needsQuotes` lets pass can be read as it is. -/
theorem readsPlain_of_hasSeparator {text : List Char} (unbroken : ∀ c ∈ text, isBreak c = false)
    (unseparated : hasSeparator text = false)
    (last : ∀ c, text.getLast? = some c → isSpaceOrTab c = false ∧ c ≠ ':') : ReadsPlain text := by
  induction text with
  | nil => exact .nil
  | cons c text ih =>
    have unbreaking := unbroken c List.mem_cons_self
    cases text with
    | nil =>
      obtain ⟨notBlank, notColon⟩ := last c rfl
      exact .other unbreaking notBlank (fun h => absurd h notColon) .nil
    | cons d text =>
      simp only [hasSeparator, Bool.or_eq_false_iff, Bool.and_eq_false_iff, beq_eq_false_iff_ne]
        at unseparated
      obtain ⟨⟨colon, sign⟩, tailUnseparated⟩ := unseparated
      have tail := ih (fun e he => unbroken e (List.mem_cons_of_mem c he)) tailUnseparated
        fun e he => last e (by rw [List.getLast?_cons_cons]; exact he)
      cases blank : isSpaceOrTab c with
      | true => exact .blank blank (sign.resolve_left (by simp [blank])) tail
      | false =>
        refine .other unbreaking blank (fun isColon => ?_) tail
        have notBreak := unbroken d (List.mem_cons_of_mem c List.mem_cons_self)
        simp [blankNext, notBreak, colon.resolve_left (fun h => h isColon)]

theorem ReadsPlain.lineScalar {c : Char} {text rest : List Char} (plain : ReadsPlain (c :: text))
    (starts : startsPlain false c (text ++ rest) = true) (ends : EndsScalar rest) :
    lineScalar (c :: text ++ rest) = some (.scalar true (.ofList (c :: text)), rest) := by
  have notDouble : c ≠ '"' := by
    rintro rfl
    simp [startsPlain, isIndicator] at starts
  have notSingle : c ≠ '\x27' := by
    rintro rfl
    simp [startsPlain, isIndicator] at starts
  have read := plain.readPlain ends 0 [] (.inl rfl)
  rw [List.cons_append] at read ⊢
  simp [Yaml.lineScalar, notDouble, notSingle, starts, read]

/-! ## All styles -/

theorem isPrintable_of_styleOf {text : List Char}
    (h : styleOf text = .plain ∨ styleOf text = .singleQuoted) :
    ∀ c ∈ text, isPrintable c = true := by
  unfold styleOf at h
  split at h
  · simp at h
  · rename_i printable
    split at h
    · split at h <;> simp at h
    · rename_i oneLine
      intro c member
      have notFeed : c ≠ '\n' := fun feed => oneLine (by simpa [feed] using member)
      have notUnprintable : isUnprintable c = false := by
        simp only [List.any_eq_true, not_exists, not_and, Bool.not_eq_true] at printable
        exact printable c member
      simp [isPrintable, notFeed, notUnprintable]

theorem needsQuotes_of_styleOf {text : List Char} (h : styleOf text = .plain) :
    needsQuotes text = false := by
  unfold styleOf at h
  split at h
  · cases h
  · split at h
    · split at h <;> cases h
    · split at h
      · cases h
      · rename_i quotes
        simpa using quotes

/-- A text that needs no quotes is plain, and starts as one. -/
theorem readsPlain_of_needsQuotes {text : List Char} (unbroken : ∀ c ∈ text, isBreak c = false)
    (h : needsQuotes text = false) :
    ∃ first tail, text = first :: tail ∧ ReadsPlain text ∧
      ∀ rest, startsPlain false first rest = true := by
  match text with
  | [] => cases h
  | first :: tail =>
    simp only [needsQuotes, Bool.or_eq_false_iff] at h
    obtain ⟨⟨⟨⟨⟨⟨firstBlank, lastBlank⟩, indicator⟩, unseparated⟩, lastColon⟩, _⟩, _⟩ := h
    refine ⟨first, tail, rfl, readsPlain_of_hasSeparator unbroken unseparated ?_, fun rest => ?_⟩
    · intro c last
      rw [List.getLast?_eq_some_getLast (List.cons_ne_nil first tail)] at last
      obtain rfl := Option.some.inj last
      exact ⟨isSpaceOrTab_eq_false_of_isBlank lastBlank, by simpa using lastColon⟩
    · have notBlank := isSpaceOrTab_eq_false_of_isBlank firstBlank
      have notDash : first ≠ '-' := by rintro rfl; cases indicator
      have notMark : first ≠ '?' := by rintro rfl; cases indicator
      have notColon : first ≠ ':' := by rintro rfl; cases indicator
      simp [startsPlain, notDash, notMark, notColon, notBlank, indicator,
        unbroken first List.mem_cons_self]

/-- A text that is written plain reads as it is. -/
theorem readsPlain_of_styleOf {text : List Char} (style : styleOf text = .plain) :
    ∃ first tail, text = first :: tail ∧ ReadsPlain text ∧
      ∀ rest, startsPlain false first rest = true := by
  have unbroken : ∀ c ∈ text, isBreak c = false := fun c member =>
    isBreak_eq_false_of_isPrintable (isPrintable_of_styleOf (.inl style) c member)
  exact readsPlain_of_needsQuotes unbroken (needsQuotes_of_styleOf style)

/-- A text as a document holds it: whether it is written plain, and what it says. -/
def textContent (text : String) : Content :=
  .scalar (styleOf text.toList == .plain) text

theorem lineScalar_doubleQuoted (text : String) (rest : List Char) :
    lineScalar (doubleQuoted text.toList ++ rest) = some (.scalar false text, rest) := by
  have shape : doubleQuoted text.toList ++ rest =
      '"' :: (text.toList.flatMap escaped ++ '"' :: rest) := by simp [doubleQuoted]
  rw [shape, lineScalar, readDoubleQuoted_flatMap_escaped]
  simp

/-- **A text on one line is read back.** -/
theorem lineScalar_inline (text : String) {rest : List Char} (ends : EndsScalar rest) :
    lineScalar (inline text.toList ++ rest) = some (textContent text, rest) := by
  cases style : styleOf text.toList with
  | plain =>
    obtain ⟨first, tail, shape, plain, starts⟩ := readsPlain_of_styleOf style
    rw [shape] at plain
    have same : inline text.toList = first :: tail := by
      rw [inline, style]
      exact shape
    have whole : String.ofList (first :: tail) = text := by rw [← shape, String.ofList_toList]
    rw [same, plain.lineScalar (starts _) ends, whole]
    simp [textContent, style]
  | singleQuoted =>
    have shape : inline text.toList ++ rest =
        '\x27' :: (Text.doubleQuotes text.toList ++ '\x27' :: rest) := by
      simp [inline, style, Text.quoted]
    rw [shape, lineScalar, readSingleQuoted_doubleQuotes [] (isPrintable_of_styleOf (.inr style))
      ends.head?_ne_quote]
    simp [textContent, style]
  | doubleQuoted =>
    have same : inline text.toList = doubleQuoted text.toList := by simp [inline, style]
    rw [same, lineScalar_doubleQuoted]
    simp [textContent, style]
  | literal =>
    have same : inline text.toList = doubleQuoted text.toList := by simp [inline, style]
    rw [same, lineScalar_doubleQuoted]
    simp [textContent, style]

/-! ## What is written -/

theorem isPrintable_upperHexDigit : ∀ n < 16, isPrintable (upperHexDigit n) = true := by decide

/-- Between double quotes six characters have an escape of one letter, those that are unprintable
one of four digits, and all others stand for themselves. -/
theorem escaped_cases (c : Char) :
    (c ∈ ['\\', '"', '\n', '\r', '\t', '\x00'] ∧
      ∃ e ∈ ['\\', '"', 'n', 'r', 't', '0'], escaped c = ['\\', e]) ∨
    (isUnprintable c = true ∧ escaped c = '\\' :: 'u' :: fourHexDigits c.toNat) ∨
    (isPrintable c = true ∧ escaped c = [c]) := by
  by_cases short : c ∈ ['\\', '"', '\n', '\r', '\t', '\x00']
  · refine .inl ⟨short, ?_⟩
    simp only [List.mem_cons, List.not_mem_nil, or_false] at short
    rcases short with rfl | rfl | rfl | rfl | rfl | rfl <;> exact ⟨_, by decide, rfl⟩
  simp only [List.mem_cons, List.not_mem_nil, or_false, not_or] at short
  obtain ⟨backslash, quote, feed, carriage, tab, null⟩ := short
  cases unprintable : isUnprintable c with
  | true =>
    refine .inr (.inl ⟨rfl, ?_⟩)
    simp [escaped, backslash, quote, feed, carriage, tab, null, unprintable]
  | false =>
    refine .inr (.inr ⟨by simp [isPrintable, unprintable, feed], ?_⟩)
    simp [escaped, backslash, quote, feed, carriage, tab, null, unprintable]

theorem isPrintable_of_mem_fourHexDigits {n : Nat} {d : Char} (member : d ∈ fourHexDigits n) :
    isPrintable d = true := by
  obtain ⟨k, inDigits, rfl⟩ := List.mem_map.1 member
  simp only [List.mem_cons, List.not_mem_nil, or_false] at inDigits
  rcases inDigits with rfl | rfl | rfl | rfl <;>
    exact isPrintable_upperHexDigit _ (Nat.mod_lt _ (by decide))

/-- Between double quotes every character can stand on a line. -/
theorem isPrintable_of_mem_escaped {c d : Char} (member : d ∈ escaped c) :
    isPrintable d = true := by
  rcases escaped_cases c with ⟨_, e, letter, shape⟩ | ⟨_, shape⟩ | ⟨printable, shape⟩
  · rw [shape, List.mem_cons, List.mem_singleton] at member
    rcases member with rfl | rfl
    · rfl
    · have letters : ['\\', '"', 'n', 'r', 't', '0'].all isPrintable = true := rfl
      exact List.all_eq_true.1 letters d letter
  · rw [shape, List.mem_cons, List.mem_cons] at member
    rcases member with rfl | rfl | member
    · rfl
    · rfl
    · exact isPrintable_of_mem_fourHexDigits member
  · rw [shape, List.mem_singleton] at member
    rwa [member]

theorem isPrintable_of_mem_doubleQuoted {text : List Char} {c : Char}
    (member : c ∈ doubleQuoted text) : isPrintable c = true := by
  simp only [doubleQuoted, List.mem_append, List.mem_cons, List.mem_flatMap, List.not_mem_nil,
    or_false] at member
  rcases member with (rfl | ⟨d, _, member⟩) | rfl
  · rfl
  · exact isPrintable_of_mem_escaped member
  · rfl

/-- Whatever the text, nothing that is written of it on one line breaks the line. -/
theorem isPrintable_of_mem_inline {text : List Char} {c : Char} (member : c ∈ inline text) :
    isPrintable c = true := by
  cases style : styleOf text with
  | plain =>
    simp only [inline, style] at member
    exact isPrintable_of_styleOf (.inl style) c member
  | singleQuoted =>
    simp only [inline, style, Text.quoted, Text.doubleQuotes, List.mem_append, List.mem_cons,
      List.mem_flatMap, List.not_mem_nil, or_false] at member
    rcases member with (rfl | ⟨d, inText, member⟩) | rfl
    · rfl
    · have printable := isPrintable_of_styleOf (.inr style) d inText
      split at member
      · simp only [List.mem_cons, List.not_mem_nil, or_false, or_self] at member
        subst member
        rfl
      · rw [List.mem_singleton] at member
        rwa [member]
    · rfl
  | doubleQuoted =>
    simp only [inline, style] at member
    exact isPrintable_of_mem_doubleQuoted member
  | literal =>
    simp only [inline, style] at member
    exact isPrintable_of_mem_doubleQuoted member

end AzurePipelines.Yaml
