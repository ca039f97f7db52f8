import AzurePipelines.Proofs.Yaml.BareText
import AzurePipelines.Proofs.Yaml.Numerals
import AzurePipelines.Yaml.Layout
import Mathlib

/-!
# Texts are not taken for null, booleans or numbers

A reader of YAML 1.1 resolves a scalar without quotes by its text alone.  `IsImplicit` describes the
texts that it takes for null, a boolean or a number: words in any letter case, and numbers with a
sign or none.  All of them need quotes (`IsImplicit.needsQuotes`).  Typed scalars are written with
texts of this grammar only (`Scalar.isImplicit_bareText`), so that no other scalar is written like
one of them (`untyped_not_implicit`).
-/

namespace AzurePipelines

namespace Yaml

/-! ## The implicit types -/

/-- The words for null and for the booleans, in lower case. -/
def implicitWords : List (List Char) :=
  ["~".toList, "null".toList, "true".toList, "false".toList, "yes".toList, "no".toList,
    "on".toList, "off".toList, "y".toList, "n".toList]

/-- A text that stands, without quotes, for null, a boolean or a number. -/
inductive IsImplicit : List Char → Prop
  | word {text : List Char} : text.map Char.toLower ∈ implicitWords → IsImplicit text
  | integer {sign text : List Char} : IsSign sign → IsUnsignedInteger text →
    IsImplicit (sign ++ text)
  | float {sign text : List Char} : IsSign sign → IsUnsignedFloat text → IsImplicit (sign ++ text)
  | infinite {sign text : List Char} : IsSign sign → text.map Char.toLower = ".inf".toList →
    IsImplicit (sign ++ text)
  | notANumber {text : List Char} : text.map Char.toLower = ".nan".toList → IsImplicit text

/-! ## Quotes -/

theorem needsQuotes_of_lower {text : List Char}
    (h : reservedWords.contains (text.map Char.toLower) = true ∨
      looksNumeric (text.map Char.toLower) = true) : needsQuotes text = true := by
  match text with
  | [] => rfl
  | first :: rest => simp only [needsQuotes, Bool.or_eq_true]; exact h.imp .inr id

/-- **What a reader takes for null, a boolean or a number needs quotes.** -/
theorem IsImplicit.needsQuotes {text : List Char} (h : IsImplicit text) :
    needsQuotes text = true := by
  cases h with
  | word known =>
    have reserved : ∀ word ∈ implicitWords, reservedWords.contains word = true := by decide
    exact needsQuotes_of_lower (.inl (reserved _ known))
  | @integer sign text signed unsigned =>
    exact needsQuotes_of_lower
      (.inr (looksNumeric_of_looksNumeral signed unsigned.startsNumber unsigned.looksNumeral))
  | @float sign text signed unsigned =>
    exact needsQuotes_of_lower
      (.inr (looksNumeric_of_looksNumeral signed unsigned.startsNumber unsigned.looksNumeral))
  | @infinite sign text signed word =>
    refine needsQuotes_of_lower (.inr ?_)
    rw [List.map_append, word]
    cases signed <;> decide
  | notANumber word =>
    refine needsQuotes_of_lower (.inr ?_)
    rw [word]
    decide

/-- A plain text is there, and is not taken for null, a boolean or a number. -/
theorem not_isImplicit_of_styleOf {text : List Char} (plain : styleOf text = .plain) :
    text ≠ [] ∧ ¬IsImplicit text := by
  have bare := needsQuotes_of_styleOf plain
  refine ⟨?_, fun implicit => ?_⟩
  · intro empty
    rw [empty] at bare
    cases bare
  · rw [implicit.needsQuotes] at bare
    cases bare

end Yaml

/-! ## Texts of typed scalars -/

open Yaml

/-- A number in digits, with a point or without. -/
theorem isImplicit_number {sign text : List Char} (signed : IsSign sign)
    (number : areDigits 10 text = true ∨ IsPointed text) : IsImplicit (sign ++ text) := by
  rcases number with digits | pointed
  · exact .integer signed (.decimal digits)
  · exact .float signed (.pointed pointed)

theorem areDigits_toDigits (n : Nat) : areDigits 10 (Nat.toDigits 10 n) = true :=
  areDigits_of_isDigit Nat.toDigits_ne_nil (all_toDigits (fun _ digit => digit) n)

theorem isImplicit_toString (n : Int) : IsImplicit (toString n).toList := by
  rw [Int.toString_eq_repr, Int.repr_eq_if]
  split
  · rw [Nat.toList_repr]
    exact isImplicit_number .none (.inl (areDigits_toDigits _))
  · rw [String.toList_append, Nat.toList_repr]
    exact isImplicit_number .minus (.inl (areDigits_toDigits _))

theorem Decimal.isNumber_positional (d : Decimal) :
    areDigits 10 d.positional = true ∨ IsPointed d.positional := by
  have digits : (Nat.toDigits 10 d.digits).all Char.isDigit = true :=
    all_toDigits (fun _ digit => digit) d.digits
  have zeros (n : Nat) : (List.replicate n '0').all Char.isDigit = true := by
    simp [List.all_replicate]
  unfold Decimal.positional
  dsimp only
  split
  · refine .inl (areDigits_of_isDigit (by simp [Nat.toDigits_ne_nil]) ?_)
    rw [List.all_append, digits, zeros, Bool.and_self]
  · split
    · refine .inr (.point ?_)
      rw [List.take_append_drop]
      exact areDigits_toDigits _
    · refine .inr (@IsPointed.point ['0'] _ (areDigits_of_isDigit (List.cons_ne_nil _ _) ?_))
      rw [List.all_append, List.all_append, digits, zeros]
      rfl

theorem Binary64.exists_sign (x : Binary64) (text : List Char) :
    ∃ sign, IsSign sign ∧ x.withSign text = sign ++ text := by
  unfold Binary64.withSign
  split
  · exact ⟨_, .minus, rfl⟩
  · exact ⟨_, .none, rfl⟩

/-- A finite number is written as one. -/
theorem Scalar.isImplicit_floatText {x : Binary64} (number : x.isNaN = false)
    (finite : x.isInfinite = false) : IsImplicit (Scalar.floatText x) := by
  unfold Scalar.floatText Binary64.positionalText
  simp only [number, finite, Bool.false_eq_true, if_false]
  split
  · obtain ⟨sign, signed, shape⟩ := x.exists_sign (Nat.toDigits 10 x.wholePart)
    have pointed : IsPointed (Nat.toDigits 10 x.wholePart ++ '.' :: ['0']) := by
      refine .point (areDigits_of_isDigit (by simp) ?_)
      rw [List.all_append, all_toDigits (fun _ digit => digit)]
      rfl
    rw [shape, List.append_assoc]
    exact isImplicit_number signed (.inr pointed)
  · obtain ⟨sign, signed, shape⟩ := x.exists_sign (x.shortest .up).positional
    rw [shape]
    exact isImplicit_number signed (Decimal.isNumber_positional _)

/-- **A typed scalar is written as a text that is taken for null, a boolean or a number.** -/
theorem Scalar.isImplicit_bareText {value : Scalar} (typed : value.isTyped = true) :
    IsImplicit value.bareText.toList := by
  match value, typed with
  | .integer n, _ => exact isImplicit_toString n
  | .boolean true, _ => exact .word (by decide)
  | .boolean false, _ => exact .word (by decide)
  | .float x, _ =>
    unfold Scalar.bareText
    dsimp only
    split
    · exact .notANumber (by decide)
    rename_i number
    split
    · split
      · exact .infinite .minus (by decide)
      · exact .infinite .none (by decide)
    rename_i finite
    rw [Scalar.text, String.toList_ofList]
    exact isImplicit_floatText (by simpa using number) (by simpa using finite)

/-! ## Texts of other scalars -/

/-- What starts with a quote or with the mark of a literal block is no typed scalar. -/
theorem Scalar.ne_bareText_of_head {value : Scalar} (typed : value.isTyped = true) {c : Char}
    (mark : c ∈ ['\x27', '"', '|']) (text : List Char) : c :: text ≠ value.bareText.toList := by
  intro same
  have bare := isBare_bareText typed
  rw [← same] at bare
  simp only [List.mem_cons, List.not_mem_nil, or_false] at mark
  rcases bare.eq_or_isBareChar c List.mem_cons_self with dash | bareChar
  · rcases mark with rfl | rfl | rfl <;> cases dash
  · rcases mark with rfl | rfl | rfl <;> cases bareChar

/-- No text is written on a line like a typed scalar. -/
theorem Scalar.inline_ne_bareText {value : Scalar} (typed : value.isTyped = true)
    (text : List Char) : Yaml.inline text ≠ value.bareText.toList := by
  unfold Yaml.inline
  split
  · rename_i plain
    intro same
    exact (not_isImplicit_of_styleOf plain).2 (same ▸ isImplicit_bareText typed)
  · exact ne_bareText_of_head typed (by decide) _
  · exact ne_bareText_of_head typed (by decide) _
  · exact ne_bareText_of_head typed (by decide) _

theorem Scalar.head?_scalarLayout_of_typed {value : Scalar} (typed : value.isTyped = true)
    (lead : Line) (column : Nat) (belowKey : Bool) :
    (scalarLayout lead column belowKey value).lines.head? =
      some (lead ++ ' ' :: value.bareText.toList) := by
  simp [scalarLayout, typed, Layout.line]

/-- Behind what stands in front of it, a scalar that is not typed starts with a text that no typed
scalar has. -/
theorem Scalar.head?_scalarLayout_of_untyped {value : Scalar} (untyped : value.isTyped = false)
    (lead : Line) (column : Nat) (belowKey : Bool) :
    ∃ shown, (scalarLayout lead column belowKey value).lines.head? = some (lead ++ ' ' :: shown) ∧
      ∀ other : Scalar, other.isTyped = true → shown ≠ other.bareText.toList := by
  unfold scalarLayout
  rw [if_neg (by simp [untyped])]
  dsimp only
  split
  · split
    · exact ⟨_, rfl, fun other typed => ne_bareText_of_head typed (by decide) _⟩
    · exact ⟨_, rfl, fun other typed => ne_bareText_of_head typed (by decide) _⟩
  · exact ⟨_, rfl, fun other typed => inline_ne_bareText typed _⟩

/-- **No text is taken for null, a boolean or a number.**  What is written plain is not empty and
not of an implicit type, typed scalars are, and no other scalar is written like one of them: neither
on a line of its own nor behind whatever stands in front of both. -/
theorem untyped_not_implicit :
    (∀ text : List Char, styleOf text = .plain → text ≠ [] ∧ ¬IsImplicit text) ∧
      (∀ other : Scalar, other.isTyped = true → IsImplicit other.bareText.toList) ∧
      ∀ value other : Scalar, value.isTyped = false → other.isTyped = true →
        Yaml.inline value.text.toList ≠ other.bareText.toList ∧
          ∀ (lead : Line) (column column' : Nat) (belowKey belowKey' : Bool),
            (scalarLayout lead column belowKey value).lines.head? ≠
              (scalarLayout lead column' belowKey' other).lines.head? := by
  refine ⟨fun text plain => not_isImplicit_of_styleOf plain,
    fun other typed => Scalar.isImplicit_bareText typed, fun value other untyped typed => ?_⟩
  refine ⟨Scalar.inline_ne_bareText typed _, fun lead column column' belowKey belowKey' same => ?_⟩
  obtain ⟨shown, head, apart⟩ := Scalar.head?_scalarLayout_of_untyped untyped lead column belowKey
  rw [head, Scalar.head?_scalarLayout_of_typed typed, Option.some.injEq, List.append_cancel_left_eq,
    List.cons.injEq] at same
  exact apart other typed same.2

/-- A version number is a text, and a text that looks like an integer is not written like one. -/
theorem untyped_not_implicit_version :
    (styleOf "6.0.100".toList = .plain ∧ ¬IsImplicit "6.0.100".toList) ∧
      IsImplicit (Scalar.integer 20).bareText.toList ∧
      Yaml.inline (Scalar.string "20").text.toList ≠ (Scalar.integer 20).bareText.toList :=
  ⟨⟨by decide, (untyped_not_implicit.1 _ (by decide)).2⟩, untyped_not_implicit.2.1 _ rfl,
    (untyped_not_implicit.2.2 _ _ rfl rfl).1⟩

end AzurePipelines
