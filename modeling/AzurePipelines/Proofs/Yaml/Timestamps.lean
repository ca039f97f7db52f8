import AzurePipelines.Proofs.Yaml.BareText
import AzurePipelines.Proofs.Yaml.Numerals
import Mathlib

/-!
# Timestamps are written plain

The timestamps of YAML 1.1: a date of ten characters, or a date and a time with an optional fraction
and an optional zone (`IsTimestamp`).  Nothing in one calls for quotes: it starts with a digit, ends
in a digit, a point or a letter, has a digit behind each of its colons, and the dash behind its year
keeps it from being any number (`looksNumeric_dash`).  So all of them are plain
(`IsTimestamp.styleOf`).
-/

namespace AzurePipelines.Yaml

open Decimal

/-! ## The grammar -/

/-- Digits in base ten, of which there are so many. -/
def isDigitRun (least most : Nat) (text : List Char) : Bool :=
  text.all Char.isDigit && least ≤ text.length && text.length ≤ most

/-- What parts a date from a time. -/
inductive IsTimeMark : List Char → Prop
  | letter {c : Char} : c = 'T' ∨ c = 't' → IsTimeMark [c]
  | blanks {blanks : List Char} : blanks ≠ [] → blanks.all isSpaceOrTab = true → IsTimeMark blanks

/-- A fraction of a second, or none. -/
inductive IsFraction : List Char → Prop
  | none : IsFraction []
  | point {digits : List Char} : digits.all Char.isDigit = true → IsFraction ('.' :: digits)

/-- A time zone, or none. -/
inductive IsZone : List Char → Prop
  | none : IsZone []
  | utc {blanks : List Char} : blanks.all isSpaceOrTab = true → IsZone (blanks ++ ['Z'])
  | hours {blanks hours : List Char} {sign : Char} : blanks.all isSpaceOrTab = true →
    sign = '+' ∨ sign = '-' → isDigitRun 1 2 hours = true → IsZone (blanks ++ sign :: hours)
  | minutes {blanks hours minutes : List Char} {sign : Char} : blanks.all isSpaceOrTab = true →
    sign = '+' ∨ sign = '-' → isDigitRun 1 2 hours = true → isDigitRun 2 2 minutes = true →
    IsZone (blanks ++ sign :: (hours ++ ':' :: minutes))

/-- A time of a day. -/
inductive IsTime : List Char → Prop
  | clock {hour minute second fraction zone : List Char} : isDigitRun 1 2 hour = true →
    isDigitRun 2 2 minute = true → isDigitRun 2 2 second = true → IsFraction fraction →
    IsZone zone → IsTime (hour ++ ':' :: (minute ++ ':' :: (second ++ (fraction ++ zone))))

/-- A date, or a date and a time. -/
inductive IsTimestamp : List Char → Prop
  | date {year month day : List Char} : isDigitRun 4 4 year = true → isDigitRun 2 2 month = true →
    isDigitRun 2 2 day = true → IsTimestamp (year ++ '-' :: (month ++ '-' :: day))
  | moment {year month day mark time : List Char} : isDigitRun 4 4 year = true →
    isDigitRun 1 2 month = true → isDigitRun 1 2 day = true → IsTimeMark mark → IsTime time →
    IsTimestamp (year ++ '-' :: (month ++ '-' :: (day ++ (mark ++ time))))

/-! ## Characters -/

/-- A character of a timestamp that is not a colon. -/
def isStampChar (c : Char) : Bool :=
  c.isDigit || ['-', '.', '+', 'T', 't', 'Z', ' ', '\t'].contains c

theorem isStampChar_of_isDigit {c : Char} (h : c.isDigit = true) : isStampChar c = true := by
  simp [isStampChar, h]

theorem isPrintable_of_isStampChar {c : Char} (h : isStampChar c = true) :
    isPrintable c = true := by
  simp only [isStampChar, Bool.or_eq_true, List.contains_eq_mem, decide_eq_true_eq, List.mem_cons,
    List.not_mem_nil, or_false] at h
  rcases h with digit | rfl | rfl | rfl | rfl | rfl | rfl | rfl | rfl
  · exact isPrintable_of_isBareChar (isBareChar_of_isDigit digit)
  all_goals decide

theorem isDigit_of_isDigitRun {least most : Nat} {text : List Char}
    (h : isDigitRun least most text = true) : ∀ c ∈ text, c.isDigit = true := by
  simp only [isDigitRun, Bool.and_eq_true, List.all_eq_true] at h
  exact h.1.1

theorem ne_nil_of_isDigitRun {least most : Nat} {text : List Char}
    (h : isDigitRun (least + 1) most text = true) : text ≠ [] := by
  intro empty
  subst empty
  simp [isDigitRun] at h

theorem all_isStampChar_of_isDigit {text : List Char} (h : ∀ c ∈ text, c.isDigit = true) :
    text.all isStampChar = true :=
  List.all_eq_true.2 fun c member => isStampChar_of_isDigit (h c member)

theorem all_isStampChar_of_isDigitRun {least most : Nat} {text : List Char}
    (h : isDigitRun least most text = true) : text.all isStampChar = true :=
  all_isStampChar_of_isDigit (isDigit_of_isDigitRun h)

theorem all_isStampChar_of_blanks {blanks : List Char} (h : blanks.all isSpaceOrTab = true) :
    blanks.all isStampChar = true := by
  refine List.all_eq_true.2 fun c member => ?_
  have blank := List.all_eq_true.1 h c member
  simp only [isSpaceOrTab, Bool.or_eq_true, beq_iff_eq] at blank
  rcases blank with rfl | rfl <;> decide

theorem isStampChar_of_sign {sign : Char} (h : sign = '+' ∨ sign = '-') :
    isStampChar sign = true := by
  rcases h with rfl | rfl <;> decide

theorem IsTimeMark.all_isStampChar {mark : List Char} (h : IsTimeMark mark) :
    mark.all isStampChar = true := by
  cases h with
  | letter isLetter => rcases isLetter with rfl | rfl <;> decide
  | blanks _ all => exact all_isStampChar_of_blanks all

theorem IsFraction.all_isStampChar {fraction : List Char} (h : IsFraction fraction) :
    fraction.all isStampChar = true := by
  cases h with
  | none => rfl
  | point digits =>
    rw [List.all_cons, all_isStampChar_of_isDigit (List.all_eq_true.1 digits)]
    rfl

/-! ## Colons -/

/-- A text with a digit behind each of its colons. -/
inductive IsJoined : List Char → Prop
  | part {text : List Char} : text.all isStampChar = true → IsJoined text
  | colon {above below : List Char} {c : Char} : above.all isStampChar = true → c.isDigit = true →
    IsJoined (c :: below) → IsJoined (above ++ ':' :: c :: below)

theorem IsJoined.append {above text : List Char} (h : IsJoined text)
    (stamp : above.all isStampChar = true) : IsJoined (above ++ text) := by
  cases h with
  | part all => exact .part (by rw [List.all_append, stamp, all, Bool.and_self])
  | colon all digit rest =>
    rw [← List.append_assoc]
    exact .colon (by rw [List.all_append, stamp, all, Bool.and_self]) digit rest

/-- Behind a colon stands at least one digit. -/
theorem IsJoined.colonDigits {least most : Nat} {above digits rest : List Char}
    (stamp : above.all isStampChar = true) (run : isDigitRun (least + 1) most digits = true)
    (h : IsJoined rest) : IsJoined (above ++ ':' :: (digits ++ rest)) := by
  have joined := h.append (all_isStampChar_of_isDigitRun run)
  match digits, ne_nil_of_isDigitRun run with
  | c :: digits, _ => exact .colon stamp (isDigit_of_isDigitRun run c List.mem_cons_self) joined

theorem IsZone.isJoined {zone : List Char} (h : IsZone zone) : IsJoined zone := by
  cases h with
  | none => exact .part rfl
  | utc blanks =>
    refine IsJoined.append (.part ?_) (all_isStampChar_of_blanks blanks)
    rfl
  | hours blanks isSign hours =>
    refine IsJoined.append (.part ?_) (all_isStampChar_of_blanks blanks)
    rw [List.all_cons, isStampChar_of_sign isSign, all_isStampChar_of_isDigitRun hours,
      Bool.and_self]
  | @minutes blanks hours minutes sign isBlank isSign isHours isMinutes =>
    refine IsJoined.append ?_ (all_isStampChar_of_blanks isBlank)
    have front : (sign :: hours).all isStampChar = true := by
      rw [List.all_cons, isStampChar_of_sign isSign, all_isStampChar_of_isDigitRun isHours,
        Bool.and_self]
    have joined := IsJoined.colonDigits front isMinutes (@IsJoined.part [] rfl)
    rwa [List.append_nil] at joined

theorem IsTime.isJoined {time : List Char} (h : IsTime time) : IsJoined time := by
  cases h with
  | clock hour minute second fraction zone =>
    have rest := zone.isJoined.append fraction.all_isStampChar
    have seconds := @IsJoined.colonDigits _ _ [] _ _ rfl second rest
    exact IsJoined.colonDigits (all_isStampChar_of_isDigitRun hour) minute seconds

theorem IsTimestamp.isJoined {text : List Char} (h : IsTimestamp text) : IsJoined text := by
  have dash {text : List Char} (joined : IsJoined text) : IsJoined ('-' :: text) :=
    @IsJoined.append ['-'] text joined rfl
  cases h with
  | date year month day =>
    have days := dash (.part (all_isStampChar_of_isDigitRun day))
    have months := dash (days.append (all_isStampChar_of_isDigitRun month))
    exact months.append (all_isStampChar_of_isDigitRun year)
  | moment year month day mark time =>
    have times := time.isJoined.append mark.all_isStampChar
    have days := dash (times.append (all_isStampChar_of_isDigitRun day))
    have months := dash (days.append (all_isStampChar_of_isDigitRun month))
    exact months.append (all_isStampChar_of_isDigitRun year)

theorem IsJoined.isPrintable {text : List Char} (h : IsJoined text) :
    ∀ c ∈ text, isPrintable c = true := by
  have stamp {part : List Char} (all : part.all isStampChar = true) :
      ∀ c ∈ part, Yaml.isPrintable c = true := fun c member =>
    isPrintable_of_isStampChar (List.all_eq_true.1 all c member)
  induction h with
  | part all => exact stamp all
  | colon all _ _ ih =>
    exact List.forall_mem_append.2 ⟨stamp all, List.forall_mem_cons.2 ⟨rfl, ih⟩⟩

/-- Without colons and number signs, nothing is separated. -/
theorem hasSeparator_append {above below : List Char} (stamp : above.all isStampChar = true)
    (follows : below.head? ≠ some '#') : hasSeparator (above ++ below) = hasSeparator below := by
  induction above with
  | nil => rfl
  | cons c above ih =>
    rw [List.all_cons, Bool.and_eq_true] at stamp
    have tail := ih stamp.2
    have notColon : c ≠ ':' := by
      intro same
      rw [same] at stamp
      cases stamp.1
    cases above with
    | nil =>
      cases below with
      | nil => rfl
      | cons d below =>
        have notSign : d ≠ '#' := by simpa using follows
        simp [hasSeparator, notColon, notSign]
    | cons d above =>
      have notSign : d ≠ '#' := by
        intro same
        have first := List.all_eq_true.1 stamp.2 d List.mem_cons_self
        rw [same] at first
        cases first
      rw [List.cons_append] at tail
      rw [List.cons_append, List.cons_append, hasSeparator, tail]
      simp [notColon, notSign]

theorem IsJoined.hasSeparator {text : List Char} (h : IsJoined text) :
    hasSeparator text = false := by
  induction h with
  | @part text all =>
    have alone := @hasSeparator_append text [] all (by simp)
    rw [List.append_nil] at alone
    exact alone
  | @colon above below c all digit _ ih =>
    have notBlank := isSpaceOrTab_eq_false_of_isBareChar (isBareChar_of_isDigit digit)
    have colon : isSpaceOrTab ':' = false := rfl
    rw [hasSeparator_append all (by simp), Yaml.hasSeparator, ih]
    simp [notBlank, colon]

/-! ## Ends -/

/-- The last character of a timestamp. -/
def isStampEnd (c : Char) : Bool := c.isDigit || c == 'Z' || c == '.'

theorem forall_mem_getLast?_append {p : Char → Prop} {above below : List Char}
    (last : ∀ c ∈ below.getLast?, p c) (front : below = [] → ∀ c ∈ above.getLast?, p c) :
    ∀ c ∈ (above ++ below).getLast?, p c := by
  cases below with
  | nil =>
    rw [List.append_nil]
    exact front rfl
  | cons d below =>
    rw [List.getLast?_append_of_ne_nil above (List.cons_ne_nil d below)]
    exact last

theorem isStampEnd_of_isDigitRun {least most : Nat} {text : List Char}
    (h : isDigitRun least most text = true) : ∀ c ∈ text.getLast?, isStampEnd c = true := by
  intro c last
  have digit := isDigit_of_isDigitRun h c (List.mem_of_getLast? last)
  simp [isStampEnd, digit]

/-- What stands in front of digits does not matter. -/
theorem isStampEnd_append {least most : Nat} {text : List Char}
    (h : isDigitRun (least + 1) most text = true) (above : List Char) :
    ∀ c ∈ (above ++ text).getLast?, isStampEnd c = true :=
  forall_mem_getLast?_append (isStampEnd_of_isDigitRun h) fun empty =>
    absurd empty (ne_nil_of_isDigitRun h)

theorem IsFraction.isStampEnd {fraction : List Char} (h : IsFraction fraction) :
    ∀ c ∈ fraction.getLast?, isStampEnd c = true := by
  intro c last
  have member := List.mem_of_getLast? last
  cases h with
  | none => cases member
  | point digits =>
    rcases List.mem_cons.1 member with rfl | member
    · rfl
    · simp [Yaml.isStampEnd, List.all_eq_true.1 digits c member]

theorem IsZone.isStampEnd {zone : List Char} (h : IsZone zone) :
    ∀ c ∈ zone.getLast?, isStampEnd c = true := by
  cases h with
  | none => simp
  | utc _ => simp [Yaml.isStampEnd]
  | @hours blanks _ sign _ _ run =>
    rw [List.append_cons]
    exact isStampEnd_append run (blanks ++ [sign])
  | @minutes blanks hours minutes sign _ _ _ run =>
    have shape : blanks ++ sign :: (hours ++ ':' :: minutes) =
        (blanks ++ [sign] ++ hours ++ [':']) ++ minutes := by simp
    rw [shape]
    exact isStampEnd_append run _

theorem IsTime.isStampEnd {time : List Char} (h : IsTime time) :
    time ≠ [] ∧ ∀ c ∈ time.getLast?, isStampEnd c = true := by
  cases h with
  | @clock hour minute second fraction zone _ _ isSecond isFraction isZone =>
    have shape : hour ++ ':' :: (minute ++ ':' :: (second ++ (fraction ++ zone))) =
        (hour ++ [':'] ++ minute ++ [':'] ++ second) ++ (fraction ++ zone) := by simp
    refine ⟨by simp, ?_⟩
    rw [shape]
    exact forall_mem_getLast?_append
      (forall_mem_getLast?_append isZone.isStampEnd fun _ => isFraction.isStampEnd)
      fun _ => isStampEnd_append isSecond _

theorem IsTimestamp.isStampEnd {text : List Char} (h : IsTimestamp text) :
    ∀ c ∈ text.getLast?, isStampEnd c = true := by
  cases h with
  | @date year month day _ _ isDay =>
    have shape : year ++ '-' :: (month ++ '-' :: day) =
        (year ++ ['-'] ++ month ++ ['-']) ++ day := by simp
    rw [shape]
    exact isStampEnd_append isDay _
  | @moment year month day mark time _ _ _ _ isTime =>
    have shape : year ++ '-' :: (month ++ '-' :: (day ++ (mark ++ time))) =
        (year ++ ['-'] ++ month ++ ['-'] ++ day ++ mark) ++ time := by simp
    rw [shape]
    exact forall_mem_getLast?_append isTime.isStampEnd.2 fun empty =>
      absurd empty isTime.isStampEnd.1

/-! ## No numbers -/

section Dash

variable {year : List Char} (nonempty : year ≠ []) (digits : ∀ c ∈ year, c.isDigit = true)

include digits

/-- The group before the first colon holds the dash. -/
theorem looksSexagesimal_dash (rest : List Char) :
    looksSexagesimal (year ++ '-' :: rest) = false := by
  have apart : ':' ∉ year ++ ['-'] := by
    intro member
    rcases List.mem_append.1 member with inYear | dash
    · cases digits ':' inYear
    · simp at dash
  have cut := Text.pieces_append_of_notMem apart rest
  obtain ⟨head, tail, shape⟩ := List.exists_cons_of_ne_nil (Text.pieces_ne_nil ':' rest)
  rw [shape, List.modifyHead_cons, ← List.append_cons] at cut
  unfold looksSexagesimal
  rw [cut]
  cases tail with
  | nil => rfl
  | cons next tail => simp

include nonempty

/-- No word that starts without a digit is meant. -/
theorem contains_dash_eq_false {words : List (List Char)}
    (heads : ∀ word ∈ words, word.head?.any Char.isDigit = false) (rest : List Char) :
    words.contains ((year ++ '-' :: rest).map Char.toLower) = false := by
  rw [List.contains_eq_mem, decide_eq_false_iff_not]
  intro member
  have other := heads _ member
  obtain ⟨c, others, rfl⟩ := List.exists_cons_of_ne_nil nonempty
  have digit := digits c List.mem_cons_self
  rw [List.cons_append, List.map_cons, List.head?_cons, toLower_of_isDigit digit,
    Option.any_some, digit] at other
  cases other

theorem isLiteral_dash (rest : List Char) : isLiteral (year ++ '-' :: rest) = false := by
  obtain ⟨taken, left⟩ := @span_isDigit year ('-' :: rest) digits
    fun c first => by obtain rfl := Option.some.inj first; rfl
  have unsigned : isUnsignedLiteral (year ++ '-' :: rest) = false := by
    unfold isUnsignedLiteral
    rw [taken, left]
    simp [isExponentOrNothing]
  have bare : dropSign (year ++ '-' :: rest) = year ++ '-' :: rest := by
    obtain ⟨c, others, rfl⟩ := List.exists_cons_of_ne_nil nonempty
    exact dropSign_of_isDigit (digits c List.mem_cons_self) _
  have heads : ∀ word ∈ nonFiniteSpellings, word.head?.any Char.isDigit = false := by decide
  have unspelled := contains_dash_eq_false nonempty digits heads rest
  simp only [isLiteral, bare, unspelled, unsigned, Bool.or_self]

/-- Digits and a dash start no number, whatever follows. -/
theorem looksNumeral_dash (rest : List Char) : looksNumeral (year ++ '-' :: rest) = false := by
  have unmarked := afterRadix?_digits nonempty digits (c := '-') (by decide) rest
  simp [looksNumeral, unmarked, looksSexagesimal_dash digits, isLiteral_dash nonempty digits]

theorem looksNumeric_dash (rest : List Char) :
    looksNumeric ((year ++ '-' :: rest).map Char.toLower) = false := by
  have starts : startsNumber (year ++ '-' :: rest) = true := by
    obtain ⟨c, others, rfl⟩ := List.exists_cons_of_ne_nil nonempty
    simp [startsNumber, digits c List.mem_cons_self]
  have same : compact (year ++ '-' :: rest) = year ++ '-' :: compact rest := by
    rw [compact_append, compact_of_isDigit digits]
    rfl
  have heads : ∀ word ∈ [".inf".toList, ".nan".toList], word.head?.any Char.isDigit = false := by
    decide
  have unspelled := contains_dash_eq_false nonempty digits heads rest
  have number := looksNumeric_signed .none starts
  rw [List.nil_append, same, looksNumeral_dash nonempty digits] at number
  rw [number]
  simpa using unspelled

end Dash

/-! ## Styles -/

theorem styleOf_eq_plain {text : List Char} (printable : ∀ c ∈ text, isPrintable c = true)
    (bare : needsQuotes text = false) : styleOf text = .plain := by
  have shown : text.any isUnprintable = false := by
    refine List.any_eq_false.2 fun c member => ?_
    have own := printable c member
    rw [isPrintable, Bool.and_eq_true, Bool.not_eq_true'] at own
    simp [own.1]
  have unbroken : text.contains '\n' = false := by
    rw [List.contains_eq_mem, decide_eq_false_iff_not]
    intro feed
    cases printable '\n' feed
  simp only [styleOf, shown, unbroken, bare, Bool.false_eq_true, if_false]

theorem IsTimestamp.exists_year {text : List Char} (h : IsTimestamp text) :
    ∃ year rest, text = year ++ '-' :: rest ∧ isDigitRun 4 4 year = true := by
  cases h with
  | date isYear _ _ => exact ⟨_, _, rfl, isYear⟩
  | moment isYear _ _ _ _ => exact ⟨_, _, rfl, isYear⟩

theorem isBlank_eq_false_of_isStampEnd {c : Char} (h : isStampEnd c = true) :
    Text.isBlank c = false ∧ c ≠ ':' := by
  simp only [isStampEnd, Bool.or_eq_true, beq_iff_eq] at h
  rcases h with (digit | rfl) | rfl
  · have bounds := toNat_of_isBareChar (isBareChar_of_isDigit digit)
    have notSpace : c ≠ ' ' := ne_of_isDigit digit rfl
    have code : c.toNat ≠ 0x20 := fun same => notSpace (Char.toNat_inj.1 same)
    refine ⟨?_, ne_of_isDigit digit rfl⟩
    simp [Text.isBlank]
    omega
  · decide
  · decide

theorem IsTimestamp.needsQuotes {text : List Char} (h : IsTimestamp text) :
    needsQuotes text = false := by
  have unseparated := h.isJoined.hasSeparator
  have ends := h.isStampEnd
  obtain ⟨year, rest, rfl, run⟩ := h.exists_year
  have nonempty := ne_nil_of_isDigitRun run
  have digits := isDigit_of_isDigitRun run
  have heads : ∀ word ∈ reservedWords, word.head?.any Char.isDigit = false := by decide
  have unreserved := contains_dash_eq_false nonempty digits heads rest
  have unnumeric := looksNumeric_dash nonempty digits rest
  obtain ⟨c, others, rfl⟩ := List.exists_cons_of_ne_nil nonempty
  have digit := digits c List.mem_cons_self
  have start : Yaml.isStampEnd c = true := by simp [Yaml.isStampEnd, digit]
  have first := isBlank_eq_false_of_isStampEnd start
  have last := isBlank_eq_false_of_isStampEnd
    (ends _ (List.getLast?_eq_some_getLast (List.cons_ne_nil c (others ++ '-' :: rest))))
  have indicator := isIndicator_eq_false_of_isBareChar (isBareChar_of_isDigit digit)
  have colon : ((c :: (others ++ '-' :: rest)).getLast (List.cons_ne_nil _ _) == ':') = false :=
    beq_eq_false_iff_ne.2 last.2
  rw [List.cons_append] at unseparated unreserved unnumeric ⊢
  simp only [Yaml.needsQuotes, first.1, last.1, indicator, unseparated, colon, unreserved,
    unnumeric, Bool.or_self]

/-- **All timestamps are written plain.** -/
theorem IsTimestamp.styleOf {text : List Char} (h : IsTimestamp text) : styleOf text = .plain :=
  styleOf_eq_plain h.isJoined.isPrintable h.needsQuotes

end AzurePipelines.Yaml
