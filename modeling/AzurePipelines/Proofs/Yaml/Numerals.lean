import AzurePipelines.Yaml.Folding
import AzurePipelines.Yaml.Plain
import Mathlib

/-!
# Numerals of documents

The integers and floating-point numbers of YAML 1.1 without their signs, as a grammar of their own:
integers in base two, eight, ten, sixteen and sixty, and numbers with a point, an exponent or both,
all with underscores among their digits.  Without letter case and underscores (`compact`) each is a
numeral that `looksNumeric` knows behind the sign (`looksNumeral`), so that it finds all of them
whatever sign they have (`looksNumeric_of_looksNumeral`).
-/

namespace AzurePipelines.Yaml

open Decimal

/-! ## The grammar -/

/-- A digit in a base up to sixteen, in either case. -/
def isDigitIn (base : Nat) (c : Char) : Bool := (hexDigit? c).any (· < base)

/-- Digits in a base, at least one of them, with underscores among them. -/
def areDigits (base : Nat) (text : List Char) : Bool :=
  text.all (fun c => c == '_' || isDigitIn base c) && text.any (isDigitIn base)

/-- A sign or none. -/
inductive IsSign : List Char → Prop
  | none : IsSign []
  | plus : IsSign ['+']
  | minus : IsSign ['-']

/-- A number in base sixty: groups of digits with a colon after each, and a last part. -/
inductive IsBaseSixty (last : List Char → Prop) : List Char → Prop
  | last {group text : List Char} : areDigits 10 group = true → last text →
    IsBaseSixty last (group ++ ':' :: text)
  | group {group text : List Char} : areDigits 10 group = true → IsBaseSixty last text →
    IsBaseSixty last (group ++ ':' :: text)

/-- An integer without its sign. -/
inductive IsUnsignedInteger : List Char → Prop
  | marked {base : Nat} {mark : Char} {digits : List Char} :
    (base, mark.toLower) ∈ [(2, 'b'), (8, 'o'), (16, 'x')] → areDigits base digits = true →
    IsUnsignedInteger ('0' :: mark :: digits)
  | octal {digits : List Char} : areDigits 8 digits = true → IsUnsignedInteger ('0' :: digits)
  | decimal {digits : List Char} : areDigits 10 digits = true → IsUnsignedInteger digits
  | sexagesimal {text : List Char} : IsBaseSixty (areDigits 10 · = true) text →
    IsUnsignedInteger text

/-- Digits around a point, of which at least one is there. -/
inductive IsPointed : List Char → Prop
  | point {whole places : List Char} : areDigits 10 (whole ++ places) = true →
    IsPointed (whole ++ '.' :: places)

/-- A finite floating-point number without its sign. -/
inductive IsUnsignedFloat : List Char → Prop
  | pointed {text : List Char} : IsPointed text → IsUnsignedFloat text
  | scaled {mantissa sign digits : List Char} {mark : Char} :
    areDigits 10 mantissa = true ∨ IsPointed mantissa → mark.toLower = 'e' → IsSign sign →
    areDigits 10 digits = true → IsUnsignedFloat (mantissa ++ mark :: (sign ++ digits))
  | sexagesimal {text : List Char} : IsBaseSixty IsPointed text → IsUnsignedFloat text

/-! ## Digits -/

theorem isDigit_of_isDigitIn {c : Char} (h : isDigitIn 10 c = true) : c.isDigit = true := by
  unfold isDigitIn hexDigit? at h
  split at h
  · assumption
  · split at h
    · simp at h
    · split at h <;> simp at h

theorem ne_of_isDigit {c d : Char} (digit : c.isDigit = true) (other : d.isDigit = false) :
    c ≠ d := by
  intro same
  rw [same, other] at digit
  cases digit

theorem isDigitIn_of_isDigit {c : Char} (h : c.isDigit = true) : isDigitIn 10 c = true := by
  have high : c.toNat ≤ 57 := by
    simp only [Char.isDigit, Bool.and_eq_true, decide_eq_true_eq, UInt32.le_iff_toNat_le] at h
    exact h.2
  simp only [isDigitIn, hexDigit?, h, if_true, Option.any_some, decide_eq_true_eq]
  have zero : '0'.toNat = 48 := rfl
  omega

theorem isDigitIn_mono {base larger : Nat} (le : base ≤ larger) {c : Char}
    (h : isDigitIn base c = true) : isDigitIn larger c = true := by
  simp only [isDigitIn, Option.any_eq_true, decide_eq_true_eq] at h ⊢
  obtain ⟨digit, same, small⟩ := h
  exact ⟨digit, same, small.trans_le le⟩

theorem areDigits_mono {base larger : Nat} (le : base ≤ larger) {text : List Char}
    (h : areDigits base text = true) : areDigits larger text = true := by
  simp only [areDigits, Bool.and_eq_true, List.all_eq_true, List.any_eq_true, Bool.or_eq_true]
    at h ⊢
  obtain ⟨all, c, member, digit⟩ := h
  exact ⟨fun d inText => (all d inText).imp id (isDigitIn_mono le), c, member,
    isDigitIn_mono le digit⟩

theorem areDigits_cons {base : Nat} {c : Char} {text : List Char}
    (first : isDigitIn base c = true) (h : areDigits base text = true) :
    areDigits base (c :: text) = true := by
  simp only [areDigits, Bool.and_eq_true] at h
  simp [areDigits, first, h.1]

/-- Digits without underscores. -/
theorem areDigits_of_isDigit {text : List Char} (nonempty : text ≠ [])
    (digits : text.all Char.isDigit = true) : areDigits 10 text = true := by
  rw [List.all_eq_true] at digits
  simp only [areDigits, Bool.and_eq_true, List.all_eq_true, List.any_eq_true, Bool.or_eq_true]
  obtain ⟨c, member⟩ := List.exists_mem_of_ne_nil text nonempty
  exact ⟨fun d inText => .inr (isDigitIn_of_isDigit (digits d inText)), c, member,
    isDigitIn_of_isDigit (digits c member)⟩

/-! ## Texts in lower case and without underscores -/

/-- A text in lower case and without underscores. -/
def compact (text : List Char) : List Char := (text.map Char.toLower).filter (· != '_')

@[simp] theorem compact_append (text more : List Char) :
    compact (text ++ more) = compact text ++ compact more := by
  simp [compact]

theorem compact_cons {c : Char} (kept : c.toLower ≠ '_') (text : List Char) :
    compact (c :: text) = c.toLower :: compact text := by
  simp [compact, kept]

theorem mem_compact {c : Char} {text : List Char} :
    c ∈ compact text ↔ c ≠ '_' ∧ ∃ d ∈ text, d.toLower = c := by
  simp [compact, and_comm]

theorem isHexDigit_toLower_ofNat : ∀ n < 128,
    (hexDigit? (Char.ofNat n)).isSome = true → isHexDigit (Char.ofNat n).toLower = true := by
  decide

/-- A digit in any base is one in base sixteen in lower case. -/
theorem isHexDigit_toLower {base : Nat} {c : Char} (h : isDigitIn base c = true) :
    isHexDigit c.toLower = true := by
  have some : (hexDigit? c).isSome = true := by
    cases digit : hexDigit? c with
    | none => simp [isDigitIn, digit] at h
    | some _ => rfl
  have small : c.toNat < 128 := by
    unfold hexDigit? at some
    simp only [Char.isDigit, Char.le_def, Bool.and_eq_true, decide_eq_true_eq,
      UInt32.le_iff_toNat_le] at some
    have same : c.val.toNat = c.toNat := rfl
    have bounds : ('9' : Char).val.toNat = 57 ∧ ('f' : Char).val.toNat = 102 ∧
      ('F' : Char).val.toNat = 70 := ⟨rfl, rfl, rfl⟩
    split at some
    · omega
    · split at some
      · omega
      · split at some
        · omega
        · cases some
  rw [← Char.ofNat_toNat c] at some ⊢
  exact isHexDigit_toLower_ofNat c.toNat small some

theorem ne_underscore_of_isHexDigit {c : Char} (h : isHexDigit c = true) : c ≠ '_' := by
  intro same
  subst same
  cases h

/-- Of digits in any base, digits in base sixteen remain. -/
theorem compact_areDigits {base : Nat} {text : List Char} (h : areDigits base text = true) :
    compact text ≠ [] ∧ (compact text).all isHexDigit = true := by
  simp only [areDigits, Bool.and_eq_true, List.all_eq_true, List.any_eq_true, Bool.or_eq_true,
    beq_iff_eq] at h
  obtain ⟨all, c, member, digit⟩ := h
  have hex := isHexDigit_toLower digit
  refine ⟨List.ne_nil_of_mem (mem_compact.2 ⟨ne_underscore_of_isHexDigit hex, c, member, rfl⟩),
    List.all_eq_true.2 fun d inCompact => ?_⟩
  obtain ⟨kept, e, inText, lower⟩ := mem_compact.1 inCompact
  rcases all e inText with rfl | digit
  · exact absurd lower.symm kept
  · exact lower ▸ isHexDigit_toLower digit

theorem toLower_of_isDigit {c : Char} (h : c.isDigit = true) : c.toLower = c := by
  refine Char.toLower_eq_of_not_isUpper fun upper => ?_
  simp [Char.isDigit, Char.isUpper, UInt32.le_iff_toNat_le] at h upper
  omega

theorem compact_of_isDigit {text : List Char} (h : ∀ c ∈ text, c.isDigit = true) :
    compact text = text := by
  have lower : text.map Char.toLower = text := by
    rw [List.map_congr_left fun c member => toLower_of_isDigit (h c member), List.map_id']
  rw [compact, lower, List.filter_eq_self]
  intro c member
  rw [bne_iff_ne]
  exact ne_of_isDigit (h c member) rfl

/-- Of digits in base ten and underscores, the digits remain. -/
theorem isDigit_of_mem_compact {text : List Char}
    (h : text.all (fun c => c == '_' || isDigitIn 10 c) = true) {c : Char}
    (member : c ∈ compact text) : c.isDigit = true := by
  obtain ⟨kept, d, inText, lower⟩ := mem_compact.1 member
  simp only [List.all_eq_true, Bool.or_eq_true, beq_iff_eq] at h
  rcases h d inText with rfl | digit
  · exact absurd lower.symm kept
  · have own := isDigit_of_isDigitIn digit
    rw [toLower_of_isDigit own] at lower
    exact lower ▸ own

/-- Digits in base ten, as they are compared. -/
theorem compact_decimal {text : List Char} (h : areDigits 10 text = true) :
    compact text ≠ [] ∧ ∀ c ∈ compact text, c.isDigit = true :=
  ⟨(compact_areDigits h).1, fun _ => isDigit_of_mem_compact (Bool.and_eq_true_iff.1 h).1⟩

/-! ## Floating-point literals -/

/-- There is no sign in front of a digit. -/
theorem dropSign_of_isDigit {c : Char} (digit : c.isDigit = true) (rest : List Char) :
    dropSign (c :: rest) = c :: rest := by
  unfold dropSign
  split
  · rename_i same
    exact absurd (List.cons.inj same).1 (ne_of_isDigit digit rfl)
  · rename_i same
    exact absurd (List.cons.inj same).1 (ne_of_isDigit digit rfl)
  · rfl

theorem isExponentOrNothing_cons {sign digits : List Char} (signed : IsSign sign)
    (nonempty : digits ≠ []) (all : ∀ c ∈ digits, c.isDigit = true) :
    isExponentOrNothing ('e' :: (sign ++ digits)) = true := by
  have dropped : dropSign (sign ++ digits) = digits := by
    cases signed with
    | none =>
      obtain ⟨c, rest, rfl⟩ := List.exists_cons_of_ne_nil nonempty
      exact dropSign_of_isDigit (all c List.mem_cons_self) rest
    | plus => rfl
    | minus => rfl
  simp only [isExponentOrNothing, dropped, Bool.and_eq_true, Bool.not_eq_true',
    List.isEmpty_eq_false_iff, List.all_eq_true]
  exact ⟨⟨rfl, nonempty⟩, all⟩

/-- An exponent does not start with a digit or a point, and there is no colon in it. -/
theorem eq_nil_or_of_isExponentOrNothing {scale : List Char}
    (h : isExponentOrNothing scale = true) :
    scale = [] ∨ ∃ mark rest, scale = mark :: rest ∧ (mark = 'e' ∨ mark = 'E') ∧ ':' ∉ rest := by
  match scale with
  | [] => exact .inl rfl
  | mark :: rest =>
    simp only [isExponentOrNothing, Bool.and_eq_true, Bool.or_eq_true, beq_iff_eq] at h
    obtain ⟨⟨isMark, -⟩, digits⟩ := h
    refine .inr ⟨mark, rest, rfl, isMark, fun colon => ?_⟩
    have inDigits : ':' ∈ dropSign rest := by
      unfold dropSign
      split
      · simpa using colon
      · simpa using colon
      · exact colon
    exact absurd (List.all_eq_true.1 digits ':' inDigits) (by decide)

theorem span_isDigit {digits rest : List Char} (all : ∀ c ∈ digits, c.isDigit = true)
    (ends : ∀ c ∈ rest.head?, c.isDigit = false) :
    (digits ++ rest).takeWhile Char.isDigit = digits ∧
      (digits ++ rest).dropWhile Char.isDigit = rest := by
  rw [List.takeWhile_append_of_pos all, List.dropWhile_append_of_pos all]
  cases rest with
  | nil => simp
  | cons c rest => simp [ends c rfl]

theorem head?_of_isExponentOrNothing {scale : List Char} (h : isExponentOrNothing scale = true) :
    ∀ c ∈ scale.head?, c.isDigit = false ∧ c ≠ '.' := by
  intro c first
  rcases eq_nil_or_of_isExponentOrNothing h with rfl | ⟨mark, rest, rfl, isMark, -⟩
  · cases first
  · obtain rfl := Option.some.inj first
    rcases isMark with rfl | rfl <;> decide

/-- Digits and an exponent, or none, are a literal. -/
theorem isUnsignedLiteral_append {whole scale : List Char} (nonempty : whole ≠ [])
    (digits : ∀ c ∈ whole, c.isDigit = true) (exponent : isExponentOrNothing scale = true) :
    isUnsignedLiteral (whole ++ scale) = true := by
  have head := head?_of_isExponentOrNothing exponent
  obtain ⟨taken, left⟩ := span_isDigit digits fun c first => (head c first).1
  unfold isUnsignedLiteral
  rw [taken, left]
  split
  · exact absurd rfl (head '.' rfl).2
  · simp [nonempty, exponent]

/-- Digits around a point and an exponent, or none, are a literal. -/
theorem isUnsignedLiteral_point {whole places scale : List Char} (nonempty : whole ++ places ≠ [])
    (digits : ∀ c ∈ whole ++ places, c.isDigit = true)
    (exponent : isExponentOrNothing scale = true) :
    isUnsignedLiteral (whole ++ '.' :: (places ++ scale)) = true := by
  have head := head?_of_isExponentOrNothing exponent
  obtain ⟨wholeTaken, wholeLeft⟩ := @span_isDigit whole ('.' :: (places ++ scale))
    (fun c member => digits c (List.mem_append_left places member))
    (fun c first => by obtain rfl := Option.some.inj first; rfl)
  obtain ⟨taken, left⟩ := span_isDigit
    (fun c member => digits c (List.mem_append_right whole member))
    fun c first => (head c first).1
  unfold isUnsignedLiteral
  rw [wholeTaken, wholeLeft]
  simpa [taken, left, exponent, or_iff_not_imp_left] using nonempty

/-- A literal without a sign is a literal. -/
theorem isLiteral_of_isUnsignedLiteral {text : List Char} (h : isUnsignedLiteral text = true) :
    isLiteral text = true := by
  have unsigned : dropSign text = text := by
    unfold dropSign
    split
    · simp [isUnsignedLiteral] at h
    · simp [isUnsignedLiteral] at h
    · rfl
  simp [isLiteral, unsigned, h]

theorem colon_notMem_of_isUnsignedLiteral {text : List Char} (h : isUnsignedLiteral text = true) :
    ':' ∉ text := by
  have inDigits {part : List Char} : ':' ∉ part.takeWhile Char.isDigit := fun member =>
    absurd (List.mem_takeWhile_imp member) (by decide)
  have inScale {scale : List Char} (exponent : isExponentOrNothing scale = true) :
      ':' ∉ scale := by
    rcases eq_nil_or_of_isExponentOrNothing exponent with rfl | ⟨mark, rest, rfl, isMark, apart⟩
    · simp
    · rcases isMark with rfl | rfl <;> simp [apart]
  have inRest {part : List Char}
      (exponent : isExponentOrNothing (part.dropWhile Char.isDigit) = true) : ':' ∉ part := by
    rw [← List.takeWhile_append_dropWhile (p := Char.isDigit) (l := part), List.mem_append, not_or]
    exact ⟨inDigits, inScale exponent⟩
  rw [← List.takeWhile_append_dropWhile (p := Char.isDigit) (l := text), List.mem_append, not_or]
  refine ⟨inDigits, ?_⟩
  unfold isUnsignedLiteral at h
  dsimp only at h
  split at h
  · rename_i rest same
    rw [Bool.and_eq_true] at h
    rw [same]
    simp [inRest h.2]
  · rw [Bool.and_eq_true] at h
    exact inScale h.2

/-! ## Numerals without a sign -/

/-- What `looksNumeric` asks of a text without its sign and its underscores. -/
def looksNumeral (compact : List Char) : Bool :=
  match afterRadix? compact with
  | some digits => !digits.isEmpty && digits.all isHexDigit
  | none => if compact.contains ':' then looksSexagesimal compact else isLiteral compact

/-- The mark of a radix stands behind a zero at the start. -/
theorem exists_radix_of_afterRadix? {text digits : List Char}
    (h : afterRadix? text = some digits) :
    ∃ radix, text = '0' :: radix :: digits ∧ (radix = 'x' ∨ radix = 'o' ∨ radix = 'b') := by
  unfold afterRadix? at h
  split at h
  · rename_i radix rest
    split at h
    · rename_i mark
      obtain rfl := Option.some.inj h
      exact ⟨radix, rfl, by simpa [or_assoc] using mark⟩
    · cases h
  · cases h

theorem looksNumeral_of_isUnsignedLiteral {text : List Char} (h : isUnsignedLiteral text = true) :
    looksNumeral text = true := by
  have unmarked : afterRadix? text = none := by
    rw [Option.eq_none_iff_forall_ne_some]
    intro digits marked
    obtain ⟨radix, rfl, mark⟩ := exists_radix_of_afterRadix? marked
    rcases mark with rfl | rfl | rfl <;> simp [isUnsignedLiteral, isExponentOrNothing] at h
  simp [looksNumeral, unmarked, colon_notMem_of_isUnsignedLiteral h,
    isLiteral_of_isUnsignedLiteral h]

/-- Digits behind the mark of a radix. -/
theorem looksNumeral_marked {mark : Char} (isMark : mark = 'b' ∨ mark = 'o' ∨ mark = 'x')
    {digits : List Char} (nonempty : digits ≠ []) (hex : digits.all isHexDigit = true) :
    looksNumeral ('0' :: mark :: digits) = true := by
  rcases isMark with rfl | rfl | rfl <;> simp [looksNumeral, afterRadix?, nonempty, hex]

/-- Behind digits and any other character there is no mark of a radix. -/
theorem afterRadix?_digits {digits : List Char} {c : Char} (nonempty : digits ≠ [])
    (all : ∀ d ∈ digits, d.isDigit = true) (other : c ≠ 'x' ∧ c ≠ 'o' ∧ c ≠ 'b')
    (rest : List Char) : afterRadix? (digits ++ c :: rest) = none := by
  rw [Option.eq_none_iff_forall_ne_some]
  intro marked found
  obtain ⟨radix, shape, mark⟩ := exists_radix_of_afterRadix? found
  match digits, nonempty, all with
  | [_], _, _ =>
    obtain ⟨-, rfl, -⟩ : _ ∧ c = radix ∧ _ := by simpa using shape
    rcases mark with same | same | same
    · exact other.1 same
    · exact other.2.1 same
    · exact other.2.2 same
  | _ :: second :: _, _, all =>
    obtain ⟨-, rfl, -⟩ : _ ∧ second = radix ∧ _ := by simpa using shape
    have digit := all second (by simp)
    rcases mark with rfl | rfl | rfl <;> cases digit

/-- Groups of digits between colons, the last of which is any literal. -/
theorem looksSexagesimal_of_pieces {text last : List Char} {groups : List (List Char)}
    (pieces : Text.pieces ':' text = groups ++ [last]) (several : groups ≠ [])
    (digits : ∀ group ∈ groups, group ≠ [] ∧ ∀ c ∈ group, c.isDigit = true)
    (literal : isLiteral last = true) : looksSexagesimal text = true := by
  have count : 1 < (groups ++ [last]).length := by
    have := List.length_pos_iff.2 several
    simp only [List.length_append, List.length_cons, List.length_nil]
    omega
  simp only [looksSexagesimal, pieces, count, decide_true, List.dropLast_concat,
    List.getLast?_concat, Option.map_some, Option.getD_some, literal, Bool.and_true,
    Bool.true_and, List.all_eq_true, Bool.and_eq_true, Bool.not_eq_true',
    List.isEmpty_eq_false_iff]
  exact digits

theorem compact_group (group rest : List Char) :
    compact (group ++ ':' :: rest) = compact group ++ ':' :: compact rest := by
  have colon : compact (':' :: rest) = ':' :: compact rest := compact_cons (by decide) rest
  rw [compact_append, colon]

/-- Numbers in base sixty, as they are cut at their colons. -/
theorem pieces_compact_baseSixty {last : List Char → Prop} {text : List Char}
    (literal : ∀ part, last part → isUnsignedLiteral (compact part) = true)
    (h : IsBaseSixty last text) :
    ∃ groups part, Text.pieces ':' (compact text) = groups ++ [compact part] ∧ last part ∧
      groups ≠ [] ∧ ∀ group ∈ groups, group ≠ [] ∧ ∀ c ∈ group, c.isDigit = true := by
  have first {group : List Char} (digits : areDigits 10 group = true) (rest : List Char) :
      Text.pieces ':' (compact (group ++ ':' :: rest)) =
        compact group :: Text.pieces ':' (compact rest) := by
    have apart : ':' ∉ compact group := fun member =>
      absurd ((compact_decimal digits).2 ':' member) (by decide)
    rw [compact_group, Text.pieces_append_cons, Text.pieces_of_notMem apart]
    rfl
  induction h with
  | @last group part digits isLast =>
    have apart := colon_notMem_of_isUnsignedLiteral (literal part isLast)
    refine ⟨[compact group], part, ?_, isLast, List.cons_ne_nil _ _, ?_⟩
    · rw [first digits, Text.pieces_of_notMem apart]
      rfl
    · simpa using compact_decimal digits
  | @group group text digits _ ih =>
    obtain ⟨groups, part, pieces, isLast, -, all⟩ := ih
    refine ⟨compact group :: groups, part, ?_, isLast, List.cons_ne_nil _ _, ?_⟩
    · rw [first digits, pieces]
      rfl
    · exact List.forall_mem_cons.2 ⟨compact_decimal digits, all⟩

theorem IsBaseSixty.exists_compact {last : List Char → Prop} {text : List Char}
    (h : IsBaseSixty last text) :
    ∃ group rest, areDigits 10 group = true ∧ compact text = compact group ++ ':' :: rest := by
  cases h with
  | @last group rest digits _ => exact ⟨group, compact rest, digits, compact_group group rest⟩
  | @group group rest digits _ => exact ⟨group, compact rest, digits, compact_group group rest⟩

theorem looksNumeral_baseSixty {last : List Char → Prop} {text : List Char}
    (literal : ∀ part, last part → isUnsignedLiteral (compact part) = true)
    (h : IsBaseSixty last text) : looksNumeral (compact text) = true := by
  obtain ⟨groups, part, pieces, isLast, several, digits⟩ := pieces_compact_baseSixty literal h
  have sixty := looksSexagesimal_of_pieces pieces several digits
    (isLiteral_of_isUnsignedLiteral (literal part isLast))
  obtain ⟨group, rest, isGroup, shape⟩ := h.exists_compact
  obtain ⟨nonempty, all⟩ := compact_decimal isGroup
  have unmarked := afterRadix?_digits nonempty all (c := ':') (by decide) rest
  rw [← shape] at unmarked
  have colon : (compact text).contains ':' = true := by simp [shape]
  simp only [looksNumeral, unmarked, colon, if_true, sixty]

/-! ## Numbers without a sign -/

theorem isUnsignedLiteral_compact_decimal {text : List Char} (h : areDigits 10 text = true) :
    isUnsignedLiteral (compact text) = true := by
  obtain ⟨nonempty, digits⟩ := compact_decimal h
  have unscaled : isExponentOrNothing [] = true := rfl
  simpa using isUnsignedLiteral_append nonempty digits unscaled

theorem isUnsignedLiteral_compact_pointed {text scale : List Char} (h : IsPointed text)
    (exponent : isExponentOrNothing scale = true) :
    isUnsignedLiteral (compact text ++ scale) = true := by
  cases h with
  | @point whole places digits =>
    obtain ⟨nonempty, all⟩ := compact_decimal digits
    rw [compact_append] at nonempty all
    rw [compact_append, compact_cons (by decide), List.append_assoc, List.cons_append]
    exact isUnsignedLiteral_point nonempty all exponent

theorem compact_sign {sign : List Char} (signed : IsSign sign) : compact sign = sign := by
  cases signed <;> rfl

theorem IsUnsignedInteger.looksNumeral {text : List Char} (h : IsUnsignedInteger text) :
    looksNumeral (compact text) = true := by
  have decimal {text : List Char} (digits : areDigits 10 text = true) :
      Yaml.looksNumeral (compact text) = true :=
    looksNumeral_of_isUnsignedLiteral (isUnsignedLiteral_compact_decimal digits)
  cases h with
  | @marked base mark digits known all =>
    obtain ⟨nonempty, hex⟩ := compact_areDigits all
    have isMark : mark.toLower = 'b' ∨ mark.toLower = 'o' ∨ mark.toLower = 'x' := by
      simp only [List.mem_cons, Prod.mk.injEq, List.not_mem_nil, or_false] at known
      exact known.imp And.right (Or.imp And.right And.right)
    have kept : mark.toLower ≠ '_' := by
      intro same
      rw [same] at isMark
      revert isMark
      decide
    rw [compact_cons (by decide), compact_cons kept]
    exact looksNumeral_marked isMark nonempty hex
  | octal all => exact decimal (areDigits_cons (by decide) (areDigits_mono (by decide) all))
  | decimal all => exact decimal all
  | sexagesimal groups =>
    exact looksNumeral_baseSixty (fun _ => isUnsignedLiteral_compact_decimal) groups

theorem IsUnsignedFloat.looksNumeral {text : List Char} (h : IsUnsignedFloat text) :
    looksNumeral (compact text) = true := by
  have pointed {text : List Char} (isPointed : IsPointed text) :
      isUnsignedLiteral (compact text) = true := by
    have unscaled : isExponentOrNothing [] = true := rfl
    simpa using isUnsignedLiteral_compact_pointed isPointed unscaled
  cases h with
  | pointed isPointed => exact looksNumeral_of_isUnsignedLiteral (pointed isPointed)
  | @scaled mantissa sign digits mark isMantissa isMark signed all =>
    obtain ⟨nonempty, isDigits⟩ := compact_decimal all
    have exponent := isExponentOrNothing_cons signed nonempty isDigits
    have shape : compact (mantissa ++ mark :: (sign ++ digits)) =
        compact mantissa ++ 'e' :: (sign ++ compact digits) := by
      rw [compact_append, compact_cons (by rw [isMark]; decide), isMark, compact_append,
        compact_sign signed]
    rw [shape]
    refine looksNumeral_of_isUnsignedLiteral ?_
    rcases isMantissa with whole | isPointed
    · obtain ⟨someDigit, isWhole⟩ := compact_decimal whole
      exact isUnsignedLiteral_append someDigit isWhole exponent
    · exact isUnsignedLiteral_compact_pointed isPointed exponent
  | sexagesimal groups => exact looksNumeral_baseSixty (fun _ => pointed) groups

/-! ## Signs -/

/-- How a number starts behind its sign. -/
def startsNumber : List Char → Bool
  | [] => false
  | c :: _ => c == '_' || c == '.' || c.isDigit

theorem startsNumber_append {text : List Char} (starts : startsNumber text = true)
    (more : List Char) : startsNumber (text ++ more) = true := by
  match text, starts with
  | _ :: _, starts => exact starts

theorem startsNumber_of_areDigits {text : List Char} (h : areDigits 10 text = true) :
    startsNumber text = true := by
  match text with
  | [] => cases h
  | c :: text =>
    simp only [areDigits, List.all_cons, Bool.and_eq_true, Bool.or_eq_true, beq_iff_eq] at h
    rcases h.1.1 with rfl | digit
    · rfl
    · simp [startsNumber, isDigit_of_isDigitIn digit]

theorem startsNumber_of_isPointed {text : List Char} (h : IsPointed text) :
    startsNumber text = true := by
  cases h with
  | @point whole places digits =>
    match whole, digits with
    | [], _ => rfl
    | c :: whole, digits => exact @startsNumber_of_areDigits (c :: (whole ++ places)) digits

theorem startsNumber_of_isBaseSixty {last : List Char → Prop} {text : List Char}
    (h : IsBaseSixty last text) : startsNumber text = true := by
  cases h with
  | last digits _ => exact startsNumber_append (startsNumber_of_areDigits digits) _
  | group digits _ => exact startsNumber_append (startsNumber_of_areDigits digits) _

theorem IsUnsignedInteger.startsNumber {text : List Char} (h : IsUnsignedInteger text) :
    startsNumber text = true := by
  cases h with
  | marked _ _ => rfl
  | octal _ => rfl
  | decimal digits => exact startsNumber_of_areDigits digits
  | sexagesimal groups => exact startsNumber_of_isBaseSixty groups

theorem IsUnsignedFloat.startsNumber {text : List Char} (h : IsUnsignedFloat text) :
    startsNumber text = true := by
  cases h with
  | pointed isPointed => exact startsNumber_of_isPointed isPointed
  | scaled isMantissa _ _ _ =>
    exact startsNumber_append
      (isMantissa.elim startsNumber_of_areDigits startsNumber_of_isPointed) _
  | sexagesimal groups => exact startsNumber_of_isBaseSixty groups

/-- Of a number with its sign, `looksNumeric` takes the sign away and no more. -/
theorem looksNumeric_signed {sign text : List Char} (signed : IsSign sign)
    (starts : startsNumber text = true) :
    looksNumeric ((sign ++ text).map Char.toLower) =
      (text.map Char.toLower == ".inf".toList || text.map Char.toLower == ".nan".toList ||
        looksNumeral (compact text)) := by
  have behind : (text.map Char.toLower).dropWhile (fun c => c == '+' || c == '-') =
      text.map Char.toLower := by
    match text, starts with
    | c :: rest, starts =>
      have first : (c.toLower == '+' || c.toLower == '-') = false := by
        simp only [startsNumber, Bool.or_eq_true, beq_iff_eq] at starts
        rcases starts with (rfl | rfl) | digit
        · rfl
        · rfl
        · rw [toLower_of_isDigit digit]
          simp only [Bool.or_eq_false_iff, beq_eq_false_iff_ne]
          exact ⟨ne_of_isDigit digit rfl, ne_of_isDigit digit rfl⟩
      rw [List.map_cons, List.dropWhile_cons_of_neg (by simp [first])]
  have unsigned : ((sign ++ text).map Char.toLower).dropWhile (fun c => c == '+' || c == '-') =
      text.map Char.toLower := by
    cases signed with
    | none => exact behind
    | plus => simpa using behind
    | minus => simpa using behind
  unfold looksNumeric
  dsimp only
  rw [unsigned]
  rfl

theorem looksNumeric_of_looksNumeral {sign text : List Char} (signed : IsSign sign)
    (starts : startsNumber text = true) (numeral : looksNumeral (compact text) = true) :
    looksNumeric ((sign ++ text).map Char.toLower) = true := by
  rw [looksNumeric_signed signed starts, numeral, Bool.or_true]

end AzurePipelines.Yaml
