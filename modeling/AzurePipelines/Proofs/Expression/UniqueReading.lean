import AzurePipelines.Expression
import AzurePipelines.Proofs.Yaml.BareText
import Mathlib

/-!
# Expressions are read in one way

Two expressions that are built of calls have the same text exactly if they agree: they are the same
up to numbers that are written alike (`Expression.condition_eq_iff`).  So no text in an expression,
whatever quotes, commas or brackets it holds, can be taken for anything but an argument.

Up to its first delimiter an operand is a word, and the delimiter tells the kinds of operands apart:
a quote opens a literal, a bracket a variable, a parenthesis the arguments of a call, and a number,
a boolean or a parameter ends before a comma or a closing parenthesis.
-/

namespace AzurePipelines

/-! ## Structured expressions -/

/-- The characters at which a word of an expression ends. -/
def delimiters : List Char := ['(', ')', '[', ',', '\x27']

def isDelimiter (c : Char) : Bool := delimiters.contains c

/-- A text without delimiters.  All identifiers are words. -/
def isWord (text : List Char) : Bool := text.all (!isDelimiter ·)

mutual

/-- All functions in the operand are called by words, and no part of it is hand-written. -/
def Operand.isStructured : Operand → Bool
  | .nested expression => expression.isStructured
  | _ => true

def Expression.isStructured : Expression → Bool
  | .raw _ => false
  | .call function arguments => isWord function.toList && areStructured arguments

def areStructured : List Operand → Bool
  | [] => true
  | operand :: rest => operand.isStructured && areStructured rest

end

theorem areStructured_map_nested {expressions : List Expression}
    (structured : ∀ e ∈ expressions, e.isStructured = true) :
    areStructured (expressions.map .nested) = true := by
  induction expressions with
  | nil => rfl
  | cons e rest ih =>
    obtain ⟨first, others⟩ := List.forall_mem_cons.1 structured
    rw [List.map_cons, areStructured, Operand.isStructured, first, ih others, Bool.and_self]

/-- What combines structured expressions is structured. -/
theorem Expression.isStructured_combine {function : String} (word : isWord function.toList = true)
    {first : Expression} {rest : List Expression}
    (structured : ∀ e ∈ first :: rest, e.isStructured = true) :
    (combine function first rest).isStructured = true := by
  rw [combine]
  split
  · exact structured first List.mem_cons_self
  · rw [isStructured, word, areStructured_map_nested structured, Bool.and_self]

/-! ## Agreement -/

mutual

/-- The operands are the same, but for numbers and integers that have one decimal text. -/
inductive Operand.Agrees : Operand → Operand → Prop
  | same (operand : Operand) : Operand.Agrees operand operand
  | numbers {x y : Binary64} : numberText x = numberText y →
    Operand.Agrees (.number x) (.number y)
  | numberInteger {x : Binary64} {n : Int} : numberText x = (toString n).toList →
    Operand.Agrees (.number x) (.integer n)
  | integerNumber {n : Int} {x : Binary64} : (toString n).toList = numberText x →
    Operand.Agrees (.integer n) (.number x)
  | nested {e f : Expression} : Expression.Agrees e f → Operand.Agrees (.nested e) (.nested f)

/-- The expressions call the same function with as many arguments, which agree in turn. -/
inductive Expression.Agrees : Expression → Expression → Prop
  | call (function : String) {arguments others : List Operand} :
    ArgumentsAgree arguments others →
    Expression.Agrees (.call function arguments) (.call function others)

inductive ArgumentsAgree : List Operand → List Operand → Prop
  | nil : ArgumentsAgree [] []
  | cons {operand other : Operand} {rest others : List Operand} :
    Operand.Agrees operand other → ArgumentsAgree rest others →
    ArgumentsAgree (operand :: rest) (other :: others)

end

-- How expressions are written, up to the first delimiter and from there on.

theorem Operand.chars_variable (name : String) :
    (Operand.variable name).chars =
      "variables".toList ++ '[' :: (Text.quoted name.toList ++ [']']) := by
  have written : (Operand.variable name).chars =
      "variables[".toList ++ Text.quoted name.toList ++ [']'] := rfl
  have word : "variables[".toList = "variables".toList ++ ['['] := by decide
  rw [written, word]
  simp only [List.append_assoc, List.cons_append, List.nil_append]

theorem Operand.chars_nested (e : Expression) : (Operand.nested e).chars = e.chars :=
  rfl

theorem Expression.chars_call (function : String) (arguments : List Operand) :
    (Expression.call function arguments).chars =
      function.toList ++ '(' :: (argumentChars arguments ++ [')']) :=
  List.append_assoc _ _ _

theorem argumentChars_cons_cons (operand next : Operand) (rest : List Operand) :
    argumentChars (operand :: next :: rest) =
      operand.chars ++ ',' :: ' ' :: argumentChars (next :: rest) :=
  rfl

mutual

theorem Operand.Agrees.chars_eq :
    ∀ {operand other : Operand}, operand.Agrees other → operand.chars = other.chars
  | _, _, .same _ => rfl
  | _, _, .numbers same => same
  | _, _, .numberInteger same => same
  | _, _, .integerNumber same => same
  | _, _, .nested agree => agree.chars_eq

theorem Expression.Agrees.chars_eq : ∀ {e f : Expression}, e.Agrees f → e.chars = f.chars
  | _, _, .call function agree => by
    rw [Expression.chars_call, Expression.chars_call, agree.chars_eq]

theorem ArgumentsAgree.chars_eq :
    ∀ {arguments others : List Operand}, ArgumentsAgree arguments others →
      argumentChars arguments = argumentChars others
  | _, _, .nil => rfl
  | _, _, .cons agree .nil => agree.chars_eq
  | _, _, .cons agree (.cons next rest) => by
    rw [argumentChars_cons_cons, argumentChars_cons_cons, agree.chars_eq,
      (ArgumentsAgree.cons next rest).chars_eq]

end

/-! ## Words -/

/-- The text is empty, or goes on with a delimiter. -/
def Delimits (text : List Char) : Prop := ∀ c ∈ text.head?, isDelimiter c = true

theorem delimits_cons {c : Char} {text : List Char} (delimiter : isDelimiter c = true) :
    Delimits (c :: text) := by
  intro d first
  obtain rfl := Option.some.inj first
  exact delimiter

/-- Where a word ends is told by what follows it. -/
theorem eq_of_word_append {word other text rest : List Char} (plain : isWord word = true)
    (plainOther : isWord other = true) (ends : Delimits text) (endsOther : Delimits rest)
    (same : word ++ text = other ++ rest) : word = other ∧ text = rest := by
  induction word generalizing other with
  | nil =>
    cases other with
    | nil => exact ⟨rfl, same⟩
    | cons c other =>
      rw [isWord, List.all_cons, Bool.and_eq_true, Bool.not_eq_true'] at plainOther
      have first : isDelimiter c = true := ends c (by rw [← List.nil_append text, same]; rfl)
      rw [plainOther.1] at first
      cases first
  | cons c word ih =>
    rw [isWord, List.all_cons, Bool.and_eq_true, Bool.not_eq_true'] at plain
    cases other with
    | nil =>
      have first : isDelimiter c = true := endsOther c (by rw [← List.nil_append rest, ← same]; rfl)
      rw [plain.1] at first
      cases first
    | cons d other =>
      rw [isWord, List.all_cons, Bool.and_eq_true] at plainOther
      obtain ⟨rfl, tail⟩ := List.cons.inj same
      obtain ⟨rfl, rest⟩ := ih plain.2 plainOther.2 tail
      exact ⟨rfl, rest⟩

/-- A text of characters that are no delimiters is a word. -/
theorem isWord_of_all {p : Char → Bool} (apart : delimiters.all (!p ·) = true)
    {text : List Char} (h : text.all p = true) : isWord text = true := by
  refine List.all_eq_true.2 fun c member => ?_
  by_contra delimiter
  rw [Bool.not_eq_true', Bool.not_eq_false, isDelimiter, List.contains_iff_mem] at delimiter
  have outside := List.all_eq_true.1 apart c delimiter
  rw [List.all_eq_true.1 h c member] at outside
  cases outside

/-! ### Quoted texts -/

theorem doubleQuotes_cons (c : Char) (text : List Char) :
    Text.doubleQuotes (c :: text) =
      c :: ((if c = '\x27' then ['\x27'] else []) ++ Text.doubleQuotes text) := by
  by_cases quote : c = '\x27' <;> simp [Text.doubleQuotes, quote]

/-- A text in quotes ends at its closing quote, whatever it holds. -/
theorem eq_of_quoted_append {text other rest rest' : List Char} (ends : '\x27' ∉ rest.head?)
    (ends' : '\x27' ∉ rest'.head?)
    (same : Text.quoted text ++ rest = Text.quoted other ++ rest') :
    text = other ∧ rest = rest' := by
  have inside : Text.doubleQuotes text ++ '\x27' :: rest =
      Text.doubleQuotes other ++ '\x27' :: rest' := by
    simpa [Text.quoted] using same
  clear same
  induction text generalizing other with
  | nil =>
    cases other with
    | nil => exact ⟨rfl, (List.cons.inj inside).2⟩
    | cons d other =>
      -- The closing quote would be the first of two.
      rw [doubleQuotes_cons] at inside
      obtain ⟨rfl, goesOn⟩ := List.cons.inj inside
      rw [goesOn] at ends
      exact absurd rfl ends
  | cons c text ih =>
    rw [doubleQuotes_cons] at inside
    cases other with
    | nil =>
      obtain ⟨rfl, goesOn⟩ := List.cons.inj inside
      rw [← goesOn] at ends'
      exact absurd rfl ends'
    | cons d other =>
      rw [doubleQuotes_cons] at inside
      simp only [List.cons_append, List.append_assoc, List.cons.injEq] at inside
      obtain ⟨rfl, tail⟩ := inside
      obtain ⟨rfl, rest⟩ := ih (List.append_cancel_left tail)
      exact ⟨rfl, rest⟩

/-! ### Words of numbers and parameters -/

/-- A character in the decimal text of a number, or in that of what is not finite. -/
def isNumeralChar (c : Char) : Bool :=
  c.isDigit || ['-', '.', 'N', 'a', 'i', 'n', 'f'].contains c

theorem isNumeralChar_of_isDigit (c : Char) (h : c.isDigit = true) : isNumeralChar c = true := by
  rw [isNumeralChar, h, Bool.true_or]

theorem Binary64.all_isNumeralChar_positionalText (x : Binary64) :
    x.positionalText.all isNumeralChar = true := by
  unfold positionalText
  split
  · rfl
  split
  · exact x.all_withSign rfl rfl
  split
  · exact x.all_withSign rfl (all_toDigits isNumeralChar_of_isDigit _)
  · exact x.all_withSign rfl (Decimal.all_positional isNumeralChar_of_isDigit rfl _)

theorem all_isNumeralChar_numberText (x : Binary64) :
    (numberText x).all isNumeralChar = true := by
  unfold numberText
  split
  · rfl
  · exact x.all_isNumeralChar_positionalText

theorem all_isNumeralChar_toString (n : Int) :
    (toString n).toList.all isNumeralChar = true :=
  all_toString isNumeralChar_of_isDigit rfl n

theorem ParameterReference.toList_expression (r : ParameterReference) :
    r.expression.toList = "parameters.".toList ++ r.path.toList :=
  String.toList_append

theorem isWord_expression (r : ParameterReference) : isWord r.expression.toList = true := by
  have path : r.path.toList.all (fun c => c == '.' || continuesSegment c) = true := by
    refine List.all_eq_true.2 fun c member => ?_
    rw [Bool.or_eq_true, beq_iff_eq]
    exact r.eq_dot_or_continuesSegment member
  rw [r.toList_expression]
  refine isWord_of_all (p := fun c => c == '.' || continuesSegment c) rfl ?_
  rw [List.all_append, path]
  rfl

/-! ## Operands up to their first delimiter -/

/-- The text of an operand up to its first delimiter. -/
def Operand.word : Operand → List Char
  | .literal _ => []
  | .number x => numberText x
  | .integer n => (toString n).toList
  | .boolean b => if b then "true".toList else "false".toList
  | .variable _ => "variables".toList
  | .parameter reference => reference.expression.toList
  | .nested (.raw text) => text.toList
  | .nested (.call function _) => function.toList

/-- The text of an operand from its first delimiter on. -/
def Operand.remainder : Operand → List Char
  | .literal text => Text.quoted text.toList
  | .variable name => '[' :: (Text.quoted name.toList ++ [']'])
  | .nested (.call _ arguments) => '(' :: (argumentChars arguments ++ [')'])
  | _ => []

/-- The delimiter that an operand goes on with; `none` if it is but a word. -/
def Operand.opening : Operand → Option Char
  | .literal _ => some '\x27'
  | .variable _ => some '['
  | .nested (.call _ _) => some '('
  | _ => none

theorem Operand.chars_eq_append (operand : Operand) :
    operand.chars = operand.word ++ operand.remainder := by
  match operand with
  | .literal _ => rfl
  | .number _ | .integer _ | .boolean _ | .parameter _ => exact (List.append_nil _).symm
  | .variable name => exact chars_variable name
  | .nested (.raw _) => exact (List.append_nil _).symm
  | .nested (.call function arguments) =>
    rw [chars_nested, Expression.chars_call]
    rfl

theorem Operand.isWord_word {operand : Operand} (structured : operand.isStructured = true) :
    isWord operand.word = true := by
  match operand, structured with
  | .literal _, _ => rfl
  | .number x, _ => exact isWord_of_all rfl (all_isNumeralChar_numberText x)
  | .integer n, _ => exact isWord_of_all rfl (all_isNumeralChar_toString n)
  | .boolean true, _ => rfl
  | .boolean false, _ => rfl
  | .variable _, _ => rfl
  | .parameter reference, _ => exact isWord_expression reference
  | .nested (.call function arguments), structured =>
    rw [isStructured, Expression.isStructured, Bool.and_eq_true] at structured
    exact structured.1

theorem Operand.head?_remainder_append (operand : Operand) (rest : List Char) :
    (operand.remainder ++ rest).head? = operand.opening.or rest.head? := by
  match operand with
  | .literal _ | .variable _ | .nested (.call _ _) => rfl
  | .number _ | .integer _ | .boolean _ | .parameter _ | .nested (.raw _) => rfl

/-- The text behind an operand: it is empty, or goes on with a comma or a closing parenthesis. -/
def EndsOperand (text : List Char) : Prop := ∀ c ∈ text.head?, c = ',' ∨ c = ')'

theorem Operand.delimits_remainder_append (operand : Operand) {rest : List Char}
    (ends : EndsOperand rest) : Delimits (operand.remainder ++ rest) := by
  intro c first
  rw [head?_remainder_append] at first
  match operand, first with
  | .literal _, first | .variable _, first | .nested (.call _ _), first =>
    obtain rfl := Option.some.inj first
    rfl
  | .number _, first | .integer _, first | .boolean _, first | .parameter _, first
  | .nested (.raw _), first =>
    rcases ends c first with rfl | rfl <;> rfl

/-- No operand opens with what may stand behind one. -/
theorem Operand.opening_eq_none {operand : Operand} {text : List Char}
    (ends : EndsOperand (operand.remainder ++ text)) : operand.opening = none := by
  cases opens : operand.opening with
  | none => rfl
  | some c =>
    have first : c ∈ (operand.remainder ++ text).head? := by
      rw [head?_remainder_append, opens]
      rfl
    rcases ends c first with rfl | rfl <;>
      match operand, opens with
      | .literal _, opens | .variable _, opens | .nested (.call _ _), opens => cases opens

theorem Operand.remainder_eq_nil {operand : Operand} (alone : operand.opening = none) :
    operand.remainder = [] := by
  match operand with
  | .number _ | .integer _ | .boolean _ | .parameter _ | .nested (.raw _) => rfl
  | .literal _ | .variable _ | .nested (.call _ _) => cases alone

/-- How an operand opens does not depend on what stands behind it. -/
theorem Operand.opening_eq {operand other : Operand} {text text' : List Char}
    (ends : EndsOperand text) (ends' : EndsOperand text')
    (same : operand.remainder ++ text = other.remainder ++ text') :
    operand.opening = other.opening := by
  cases own : operand.opening with
  | none =>
    rw [remainder_eq_nil own, List.nil_append] at same
    rw [same] at ends
    exact (opening_eq_none ends).symm
  | some c =>
    cases their : other.opening with
    | none =>
      rw [remainder_eq_nil their, List.nil_append] at same
      rw [← same] at ends'
      rw [opening_eq_none ends'] at own
      cases own
    | some d =>
      have heads : operand.opening.or text.head? = other.opening.or text'.head? := by
        rw [← head?_remainder_append, same, head?_remainder_append]
      rw [own, their] at heads
      exact heads

/-! ### Inversion of openings -/

theorem Operand.exists_literal {operand : Operand} (opens : operand.opening = some '\x27') :
    ∃ text, operand = .literal text := by
  match operand, opens with
  | .literal text, _ => exact ⟨text, rfl⟩
  | .nested (.raw _), opens | .nested (.call _ _), opens => cases opens

theorem Operand.exists_variable {operand : Operand} (opens : operand.opening = some '[') :
    ∃ name, operand = .variable name := by
  match operand, opens with
  | .variable name, _ => exact ⟨name, rfl⟩
  | .nested (.raw _), opens | .nested (.call _ _), opens => cases opens

theorem Operand.exists_nested {operand : Operand} (opens : operand.opening = some '(') :
    ∃ e, operand = .nested e := by
  match operand, opens with
  | .nested e, _ => exact ⟨e, rfl⟩

theorem Operand.opening_nested {e : Expression} (structured : e.isStructured = true) :
    (Operand.nested e).opening = some '(' := by
  match e with
  | .call _ _ => rfl
  | .raw _ =>
    rw [Expression.isStructured] at structured
    cases structured

/-! ### Operands that are but a word -/

/-- The operand is a number or an integer. -/
inductive Operand.IsNumeral : Operand → Prop
  | number (x : Binary64) : Operand.IsNumeral (.number x)
  | integer (n : Int) : Operand.IsNumeral (.integer n)

/-- The operand is a boolean or a parameter. -/
inductive Operand.IsName : Operand → Prop
  | boolean (b : Bool) : Operand.IsName (.boolean b)
  | parameter (reference : ParameterReference) : Operand.IsName (.parameter reference)

theorem Operand.isNumeral_or_isName {operand : Operand} (structured : operand.isStructured = true)
    (alone : operand.opening = none) : operand.IsNumeral ∨ operand.IsName := by
  match operand with
  | .number x => exact .inl (.number x)
  | .integer n => exact .inl (.integer n)
  | .boolean b => exact .inr (.boolean b)
  | .parameter reference => exact .inr (.parameter reference)
  | .literal _ | .variable _ | .nested (.call _ _) => cases alone
  | .nested (.raw _) =>
    rw [isStructured, Expression.isStructured] at structured
    cases structured

theorem isBare_numberText (x : Binary64) : IsBare (numberText x) := by
  unfold numberText
  split
  · exact .unsigned (by decide) rfl
  · exact x.isBare_positionalText

theorem Operand.IsNumeral.word_ne_nil {operand : Operand} (numeral : operand.IsNumeral) :
    operand.word ≠ [] := by
  cases numeral with
  | number x => exact (isBare_numberText x).ne_nil
  | integer n => exact (isBare_toString n).ne_nil

theorem Operand.IsNumeral.not_mem_word {operand : Operand} (numeral : operand.IsNumeral) :
    'e' ∉ operand.word := by
  have letter {text : List Char} (h : text.all isNumeralChar = true) : 'e' ∉ text :=
    fun member => absurd (List.all_eq_true.1 h _ member) (by decide)
  cases numeral with
  | number x => exact letter (all_isNumeralChar_numberText x)
  | integer n => exact letter (all_isNumeralChar_toString n)

/-- The letter that all names have in common is in no numeral. -/
theorem Operand.IsName.mem_word {operand : Operand} (name : operand.IsName) :
    'e' ∈ operand.word := by
  match operand, name with
  | _, .boolean true => exact (by decide : 'e' ∈ "true".toList)
  | _, .boolean false => exact (by decide : 'e' ∈ "false".toList)
  | _, .parameter r =>
    have written : 'e' ∈ "parameters.".toList ++ r.path.toList :=
      List.mem_append_left _ (by decide)
    rw [← r.toList_expression] at written
    exact written

theorem Operand.IsNumeral.agrees {operand other : Operand} (numeral : operand.IsNumeral)
    (otherNumeral : other.IsNumeral) (same : operand.word = other.word) :
    operand.Agrees other := by
  cases numeral with
  | number x =>
    cases otherNumeral with
    | number y => exact .numbers same
    | integer n => exact .numberInteger same
  | integer m =>
    cases otherNumeral with
    | number y => exact .integerNumber same
    | integer n =>
      have repr : m.repr = n.repr := String.toList_injective same
      obtain rfl := Int.repr_injective repr
      exact .same _

theorem Operand.IsName.eq {operand other : Operand} (name : operand.IsName)
    (otherName : other.IsName) (same : operand.word = other.word) : operand = other := by
  have apart (b : Bool) (r : ParameterReference) :
      (if b then "true".toList else "false".toList) ≠ r.expression.toList := by
    intro same
    have first : (if b then "true".toList else "false".toList).head? = some 'p' := by
      rw [same, r.toList_expression]
      rfl
    cases b <;> exact absurd first (by decide)
  cases name with
  | boolean b =>
    cases otherName with
    | boolean c =>
      have texts : ∀ b c : Bool, (if b then "true".toList else "false".toList) =
          (if c then "true".toList else "false".toList) → b = c := by decide
      rw [texts b c same]
    | parameter r => exact absurd same (apart b r)
  | parameter r =>
    cases otherName with
    | boolean b => exact absurd same.symm (apart b r)
    | parameter r' =>
      have written : r.expression.toList = r'.expression.toList := same
      rw [r.toList_expression, r'.toList_expression] at written
      have paths := String.toList_injective (List.append_cancel_left written)
      rw [ParameterReference.eq_of_path_eq paths]

theorem Operand.word_ne_nil {operand : Operand} (structured : operand.isStructured = true)
    (alone : operand.opening = none) : operand.word ≠ [] := by
  rcases isNumeral_or_isName structured alone with numeral | name
  · exact numeral.word_ne_nil
  · exact List.ne_nil_of_mem name.mem_word

/-- Operands that are but a word agree if their words are the same. -/
theorem Operand.agrees_of_word_eq {operand other : Operand}
    (structured : operand.isStructured = true) (structuredOther : other.isStructured = true)
    (alone : operand.opening = none) (aloneOther : other.opening = none)
    (same : operand.word = other.word) : operand.Agrees other := by
  rcases isNumeral_or_isName structured alone with numeral | name
  · rcases isNumeral_or_isName structuredOther aloneOther with otherNumeral | otherName
    · exact numeral.agrees otherNumeral same
    · exact absurd (same ▸ otherName.mem_word) numeral.not_mem_word
  · rcases isNumeral_or_isName structuredOther aloneOther with otherNumeral | otherName
    · exact absurd (same ▸ name.mem_word) otherNumeral.not_mem_word
    · obtain rfl := name.eq otherName same
      exact .same _

/-! ## Unique reading -/

theorem EndsOperand.quote_not_mem {text : List Char} (ends : EndsOperand text) :
    '\x27' ∉ text.head? := by
  intro first
  rcases ends _ first with quote | quote <;> exact absurd quote (by decide)

/-- The text behind an argument of a call, with the arguments that are left. -/
def argumentTail : List Operand → List Char → List Char
  | [], text => ')' :: text
  | operand :: rest, text => ',' :: ' ' :: (argumentChars (operand :: rest) ++ ')' :: text)

theorem argumentChars_cons_append (operand : Operand) (rest : List Operand) (text : List Char) :
    argumentChars (operand :: rest) ++ ')' :: text = operand.chars ++ argumentTail rest text := by
  cases rest with
  | nil => rfl
  | cons next rest =>
    rw [argumentChars_cons_cons, argumentTail, List.append_assoc, List.cons_append,
      List.cons_append]

theorem endsOperand_argumentTail (rest : List Operand) (text : List Char) :
    EndsOperand (argumentTail rest text) := by
  intro c first
  cases rest with
  | nil => exact .inr (Option.some.inj first).symm
  | cons operand rest => exact .inl (Option.some.inj first).symm

theorem argumentChars_append_of_argumentTail_eq {rest others : List Operand}
    {text text' : List Char} (same : argumentTail rest text = argumentTail others text') :
    argumentChars rest ++ ')' :: text = argumentChars others ++ ')' :: text' := by
  cases rest with
  | nil =>
    cases others with
    | nil => exact same
    | cons other others => exact absurd (List.cons.inj same).1 (by decide)
  | cons operand rest =>
    cases others with
    | nil => exact absurd (List.cons.inj same).1 (by decide)
    | cons other others => exact (List.cons.inj (List.cons.inj same).2).2

/-- Where there are arguments, something stands between the parentheses. -/
theorem argumentChars_append_ne {operand : Operand} (structured : operand.isStructured = true)
    (rest : List Operand) (text text' : List Char) :
    argumentChars (operand :: rest) ++ ')' :: text ≠ ')' :: text' := by
  intro same
  rw [argumentChars_cons_append, operand.chars_eq_append, List.append_assoc] at same
  have closes : Delimits (')' :: text') := delimits_cons rfl
  have nothing : isWord [] = true := rfl
  obtain ⟨word, remainder⟩ := eq_of_word_append (Operand.isWord_word structured) nothing
    (operand.delimits_remainder_append (endsOperand_argumentTail rest text)) closes same
  have ends : EndsOperand (operand.remainder ++ argumentTail rest text) := by
    rw [remainder]
    exact endsOperand_argumentTail [] text'
  exact Operand.word_ne_nil structured (Operand.opening_eq_none ends) word

-- The induction is on the first of two trees, with any text behind each of the two: an operand has
-- to end in front of it, while a call ends at its own parenthesis.

mutual

theorem Operand.agrees_of_append {operand other : Operand} {text text' : List Char}
    (structured : operand.isStructured = true) (structuredOther : other.isStructured = true)
    (ends : EndsOperand text) (ends' : EndsOperand text')
    (same : operand.chars ++ text = other.chars ++ text') :
    operand.Agrees other ∧ text = text' := by
  have parts := same
  rw [operand.chars_eq_append, other.chars_eq_append, List.append_assoc, List.append_assoc] at parts
  obtain ⟨words, remainders⟩ := eq_of_word_append (Operand.isWord_word structured)
    (Operand.isWord_word structuredOther) (operand.delimits_remainder_append ends)
    (other.delimits_remainder_append ends') parts
  have openings := Operand.opening_eq ends ends' remainders
  match operand with
  | .literal own =>
    obtain ⟨their, rfl⟩ := Operand.exists_literal openings.symm
    obtain ⟨texts, rest⟩ := eq_of_quoted_append ends.quote_not_mem ends'.quote_not_mem same
    rw [String.toList_injective texts]
    exact ⟨.same _, rest⟩
  | .variable own =>
    obtain ⟨their, rfl⟩ := Operand.exists_variable openings.symm
    have inside : Text.quoted own.toList ++ ']' :: text =
        Text.quoted their.toList ++ ']' :: text' := by
      have brackets := (List.cons.inj remainders).2
      rw [List.append_eq, List.append_eq, List.append_assoc, List.append_assoc] at brackets
      exact brackets
    obtain ⟨names, rest⟩ := eq_of_quoted_append (by simp) (by simp) inside
    rw [String.toList_injective names]
    exact ⟨.same _, (List.cons.inj rest).2⟩
  | .nested e =>
    have call : (Operand.nested e).opening = some '(' := Operand.opening_nested structured
    obtain ⟨f, rfl⟩ := Operand.exists_nested (openings.symm.trans call)
    obtain ⟨agree, rest⟩ := e.agrees_of_append structured structuredOther same
    exact ⟨.nested agree, rest⟩
  | .number _ | .integer _ | .boolean _ | .parameter _ =>
    have rest := remainders
    rw [Operand.remainder_eq_nil rfl, Operand.remainder_eq_nil openings.symm] at rest
    exact ⟨Operand.agrees_of_word_eq structured structuredOther rfl openings.symm words, rest⟩

theorem Expression.agrees_of_append {e f : Expression} {text text' : List Char}
    (structured : e.isStructured = true) (structuredOther : f.isStructured = true)
    (same : e.chars ++ text = f.chars ++ text') : e.Agrees f ∧ text = text' := by
  match e, f with
  | .call function arguments, .call other others =>
    rw [Expression.isStructured, Bool.and_eq_true] at structured structuredOther
    simp only [Expression.chars_call, List.append_assoc, List.cons_append, List.nil_append] at same
    obtain ⟨names, lists⟩ := eq_of_word_append structured.1 structuredOther.1 (delimits_cons rfl)
      (delimits_cons rfl) same
    obtain ⟨agree, rest⟩ := argumentsAgree_of_append structured.2 structuredOther.2
      (List.cons.inj lists).2
    rw [String.toList_injective names]
    exact ⟨.call _ agree, rest⟩

theorem argumentsAgree_of_append {arguments others : List Operand} {text text' : List Char}
    (structured : areStructured arguments = true) (structuredOthers : areStructured others = true)
    (same : argumentChars arguments ++ ')' :: text = argumentChars others ++ ')' :: text') :
    ArgumentsAgree arguments others ∧ text = text' := by
  match arguments, others with
  | [], [] => exact ⟨.nil, (List.cons.inj same).2⟩
  | [], other :: others =>
    rw [areStructured, Bool.and_eq_true] at structuredOthers
    exact absurd same.symm (argumentChars_append_ne structuredOthers.1 _ _ _)
  | operand :: rest, [] =>
    rw [areStructured, Bool.and_eq_true] at structured
    exact absurd same (argumentChars_append_ne structured.1 _ _ _)
  | operand :: rest, other :: others =>
    rw [areStructured, Bool.and_eq_true] at structured structuredOthers
    rw [argumentChars_cons_append, argumentChars_cons_append] at same
    obtain ⟨agree, tails⟩ := operand.agrees_of_append structured.1 structuredOthers.1
      (endsOperand_argumentTail _ _) (endsOperand_argumentTail _ _) same
    obtain ⟨restAgree, text⟩ := argumentsAgree_of_append structured.2 structuredOthers.2
      (argumentChars_append_of_argumentTail_eq tails)
    exact ⟨.cons agree restAgree, text⟩

end

/-! ## Conditions -/

/-- **Expressions that are built of calls have the same text exactly if they agree**: they are the
same tree, but for numbers and integers in it with one decimal text. -/
theorem Expression.condition_eq_iff {e f : Expression} (structured : e.isStructured = true)
    (structuredOther : f.isStructured = true) : e.condition = f.condition ↔ e.Agrees f := by
  constructor
  · intro same
    have chars : e.chars = f.chars := String.ofList_injective (Condition.mk.inj same)
    exact (agrees_of_append structured structuredOther (congrArg (· ++ []) chars)).1
  · intro agree
    rw [condition, condition, agree.chars_eq]

/-- A condition whose names and texts look like the end of what they stand in. -/
def Expression.guarded (limit : Operand) : Expression :=
  all (variableEquals "Days'], 'x" limit) [isBranch "main'), ne('a'", not isPullRequest]

theorem Expression.isStructured_guarded {limit : Operand} (structured : limit.isStructured = true) :
    (guarded limit).isStructured = true := by
  have compared : (variableEquals "Days'], 'x" limit).isStructured = true := by
    simp [variableEquals, equals, isStructured, areStructured, Operand.isStructured, structured,
      isWord, isDelimiter, delimiters]
  have word : isWord "and".toList = true := rfl
  rw [guarded, all]
  refine isStructured_combine word (List.forall_mem_cons.2 ⟨compared, ?_⟩)
  exact List.forall_mem_cons.2 ⟨rfl, List.forall_mem_singleton.2 rfl⟩

/-- An integer and a number of the same text agree. -/
theorem Expression.condition_eq_iff_guarded :
    (guarded (.integer 5)).isStructured = true ∧
      (guarded (.number ⟨0x4014000000000000⟩)).isStructured = true ∧
      (guarded (.integer 5)).condition = (guarded (.number ⟨0x4014000000000000⟩)).condition ∧
      (guarded (.integer 5)).Agrees (guarded (.number ⟨0x4014000000000000⟩)) := by
  have left : (guarded (.integer 5)).isStructured = true := isStructured_guarded rfl
  have right : (guarded (.number ⟨0x4014000000000000⟩)).isStructured = true :=
    isStructured_guarded rfl
  have same : (guarded (.integer 5)).condition =
      (guarded (.number ⟨0x4014000000000000⟩)).condition := by decide +kernel
  exact ⟨left, right, same, (condition_eq_iff left right).1 same⟩

end AzurePipelines
