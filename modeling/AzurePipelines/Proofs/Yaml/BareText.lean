import AzurePipelines.Proofs.Yaml.InlineText
import Mathlib

/-!
# Bare texts are read back

Integers, booleans and floating-point numbers are written bare.  Their texts are made of letters,
digits and points after at most one minus sign (`IsBare`), so that a reader takes them plain and to
their end (`Scalar.lineScalar_bareText`).
-/

namespace AzurePipelines

/-! ## Letters, digits and points -/

/-- A character of a bare text after its sign. -/
def isBareChar (c : Char) : Bool := c.isAlphanum || c == '.'

/-- Letters, digits and points, at least one of them, after a minus sign or none. -/
inductive IsBare : List Char → Prop
  | unsigned {text : List Char} : text ≠ [] → text.all isBareChar = true → IsBare text
  | negative {text : List Char} : text ≠ [] → text.all isBareChar = true → IsBare ('-' :: text)

theorem IsBare.ne_nil {text : List Char} (h : IsBare text) : text ≠ [] := by
  cases h with
  | unsigned nonempty _ => exact nonempty
  | negative _ _ => exact List.cons_ne_nil _ _

theorem isBareChar_of_isDigit {c : Char} (h : c.isDigit = true) : isBareChar c = true := by
  simp [isBareChar, Char.isAlphanum, h]

theorem isIndicator_eq_false_of_isBareChar {c : Char} (h : isBareChar c = true) :
    Yaml.isIndicator c = false := by
  cases indicator : Yaml.isIndicator c with
  | false => rfl
  | true =>
    simp only [Yaml.isIndicator, List.contains_eq_mem, List.mem_cons, List.not_mem_nil, or_false,
      decide_eq_true_eq] at indicator
    rcases indicator with rfl | rfl | rfl | rfl | rfl | rfl | rfl | rfl | rfl | rfl | rfl | rfl |
      rfl | rfl | rfl | rfl | rfl | rfl | rfl <;> cases h

theorem isSpaceOrTab_eq_false_of_isBareChar {c : Char} (h : isBareChar c = true) :
    Yaml.isSpaceOrTab c = false := by
  cases blank : Yaml.isSpaceOrTab c with
  | false => rfl
  | true =>
    simp only [Yaml.isSpaceOrTab, Bool.or_eq_true, beq_iff_eq] at blank
    rcases blank with rfl | rfl <;> cases h

theorem toNat_of_isBareChar {c : Char} (h : isBareChar c = true) :
    0x20 ≤ c.toNat ∧ c.toNat < 0x7F := by
  simp only [isBareChar, Char.isAlphanum, Char.isAlpha, Char.isUpper, Char.isLower, Char.isDigit,
    Bool.or_eq_true, Bool.and_eq_true, decide_eq_true_eq, beq_iff_eq, ge_iff_le,
    UInt32.le_iff_toNat_le] at h
  have same : c.val.toNat = c.toNat := rfl
  have bounds : ('0' : Char).val.toNat = 48 ∧ ('9' : Char).val.toNat = 57 ∧
      ('A' : Char).val.toNat = 65 ∧ ('Z' : Char).val.toNat = 90 ∧
      ('a' : Char).val.toNat = 97 ∧ ('z' : Char).val.toNat = 122 := ⟨rfl, rfl, rfl, rfl, rfl, rfl⟩
  rcases h with h | rfl
  · omega
  · decide

theorem isPrintable_of_isBareChar {c : Char} (h : isBareChar c = true) :
    Yaml.isPrintable c = true := by
  obtain ⟨low, high⟩ := toNat_of_isBareChar h
  have other {d : Char} (far : 0x7F ≤ d.toNat ∨ d.toNat < 0x20) : c ≠ d := by
    rintro rfl
    omega
  simp [Yaml.isPrintable, Yaml.isUnprintable, Text.isControl, other (d := '\ufeff') (by decide),
    other (d := '\u2028') (by decide), other (d := '\u2029') (by decide),
    other (d := '\n') (by decide)]
  omega

/-! ## Texts of numbers -/

theorem all_toDigits {p : Char → Bool} (digits : ∀ c : Char, c.isDigit = true → p c = true)
    (n : Nat) : (Nat.toDigits 10 n).all p = true :=
  List.all_eq_true.2 fun c member =>
    digits c (Nat.isDigit_of_mem_toDigits (by decide) (by decide) member)

theorem all_toString {p : Char → Bool} (digits : ∀ c : Char, c.isDigit = true → p c = true)
    (minus : p '-' = true) (n : Int) : (toString n).toList.all p = true := by
  rw [Int.toString_eq_repr, Int.repr_eq_if]
  split
  · rw [Nat.toList_repr]
    exact all_toDigits digits _
  · rw [String.toList_append, Nat.toList_repr, List.all_append, all_toDigits digits, Bool.and_true]
    exact List.all_eq_true.2 (List.forall_mem_singleton.2 minus)

theorem Binary64.all_withSign {p : Char → Bool} (minus : p '-' = true) (x : Binary64)
    {text : List Char} (inner : text.all p = true) : (x.withSign text).all p = true := by
  unfold withSign
  split
  · rw [List.all_cons, minus, inner, Bool.and_self]
  · exact inner

theorem all_isBareChar_toDigits (n : Nat) : (Nat.toDigits 10 n).all isBareChar = true :=
  all_toDigits (fun _ => isBareChar_of_isDigit) n

theorem isBare_toString (n : Int) : IsBare (toString n).toList := by
  rw [Int.toString_eq_repr, Int.repr_eq_if]
  split
  · rw [Nat.toList_repr]
    exact .unsigned Nat.toDigits_ne_nil (all_isBareChar_toDigits _)
  · rw [String.toList_append, Nat.toList_repr]
    exact .negative Nat.toDigits_ne_nil (all_isBareChar_toDigits _)

theorem Decimal.positional_ne_nil (d : Decimal) : d.positional ≠ [] := by
  unfold Decimal.positional
  dsimp only
  split
  · simp [Nat.toDigits_ne_nil]
  · split <;> simp

/-- A decimal is written with digits and a point. -/
theorem Decimal.all_positional {p : Char → Bool}
    (digits : ∀ c : Char, c.isDigit = true → p c = true) (point : p '.' = true) (d : Decimal) :
    d.positional.all p = true := by
  have own := all_toDigits digits d.digits
  have part {text : List Char} (sublist : text.Sublist (Nat.toDigits 10 d.digits)) :
      text.all p = true :=
    List.all_eq_true.2 fun c member => List.all_eq_true.1 own c (sublist.subset member)
  have zero : p '0' = true := digits '0' rfl
  have zeros (n : Nat) : (List.replicate n '0').all p = true := by
    simp [List.all_replicate, zero]
  unfold Decimal.positional
  dsimp only
  split
  · rw [List.all_append, own, zeros, Bool.and_self]
  · split
    · rw [List.all_append, List.all_cons, part (List.take_sublist _ _), point,
        part (List.drop_sublist _ _), Bool.and_self, Bool.and_self]
    · rw [List.all_cons, List.all_cons, List.all_append, zero, point, zeros, own, Bool.and_self,
        Bool.and_self, Bool.and_self]

theorem Decimal.all_isBareChar_positional (d : Decimal) : d.positional.all isBareChar = true :=
  d.all_positional (fun _ => isBareChar_of_isDigit) rfl

/-- A sign in front of a bare text leaves it bare. -/
theorem Binary64.isBare_withSign (x : Binary64) {text : List Char} (nonempty : text ≠ [])
    (bare : text.all isBareChar = true) : IsBare (x.withSign text) := by
  unfold Binary64.withSign
  split
  · exact .negative nonempty bare
  · exact .unsigned nonempty bare

theorem IsBare.append {text more : List Char} (h : IsBare text)
    (bare : more.all isBareChar = true) : IsBare (text ++ more) := by
  cases h with
  | unsigned nonempty first =>
    exact .unsigned (by simp [nonempty]) (by rw [List.all_append, first, bare, Bool.and_self])
  | @negative text nonempty first =>
    have both : (text ++ more).all isBareChar = true := by
      rw [List.all_append, first, bare, Bool.and_self]
    exact .negative (by simp [nonempty]) both

theorem Binary64.isBare_positionalText (x : Binary64) : IsBare x.positionalText := by
  unfold Binary64.positionalText
  split
  · exact .unsigned (by decide) rfl
  split
  · exact x.isBare_withSign (by decide) rfl
  split
  · exact x.isBare_withSign Nat.toDigits_ne_nil (all_isBareChar_toDigits _)
  · exact x.isBare_withSign (Decimal.positional_ne_nil _) (Decimal.all_isBareChar_positional _)

theorem Scalar.isBare_floatText (x : Binary64) : IsBare (Scalar.floatText x) := by
  unfold Scalar.floatText
  split
  · exact x.isBare_positionalText.append rfl
  · exact x.isBare_positionalText

/-- The text of a typed scalar is bare. -/
theorem Scalar.isBare_bareText {value : Scalar} (typed : value.isTyped = true) :
    IsBare value.bareText.toList := by
  match value, typed with
  | .integer n, _ => exact isBare_toString n
  | .boolean true, _ => exact .unsigned (by decide) rfl
  | .boolean false, _ => exact .unsigned (by decide) rfl
  | .float x, _ =>
    unfold Scalar.bareText
    dsimp only
    split
    · exact .unsigned (by decide) rfl
    split
    · split
      · exact .negative (by decide) rfl
      · exact .unsigned (by decide) rfl
    · rw [Scalar.text, String.toList_ofList]
      exact isBare_floatText x

theorem IsBare.eq_or_isBareChar {text : List Char} (h : IsBare text) :
    ∀ c ∈ text, c = '-' ∨ isBareChar c = true := by
  cases h with
  | unsigned _ bare => exact fun c member => .inr (List.all_eq_true.1 bare c member)
  | negative _ bare =>
    exact List.forall_mem_cons.2 ⟨.inl rfl, fun c member => .inr (List.all_eq_true.1 bare c member)⟩

theorem IsBare.isPrintable {text : List Char} (h : IsBare text) :
    ∀ c ∈ text, Yaml.isPrintable c = true := by
  intro c member
  rcases h.eq_or_isBareChar c member with rfl | bare
  · rfl
  · exact isPrintable_of_isBareChar bare

theorem IsBare.toNat_le {text : List Char} (h : IsBare text) : ∀ c ∈ text, c.toNat ≤ 0x7F := by
  intro c member
  rcases h.eq_or_isBareChar c member with rfl | bare
  · decide
  · have bounds := toNat_of_isBareChar bare
    omega

/-! ## Reading -/

theorem readsPlain_of_all_isBareChar {text : List Char} (bare : text.all isBareChar = true) :
    Yaml.ReadsPlain text := by
  induction text with
  | nil => exact .nil
  | cons c text ih =>
    rw [List.all_cons, Bool.and_eq_true] at bare
    obtain ⟨first, tail⟩ := bare
    refine .other (Yaml.isBreak_eq_false_of_isPrintable (isPrintable_of_isBareChar first))
      (isSpaceOrTab_eq_false_of_isBareChar first) ?_ (ih tail)
    rintro rfl
    cases first

/-- What is bare is read as a plain scalar. -/
theorem IsBare.lineScalar {text : List Char} (h : IsBare text) :
    Yaml.lineScalar text = some (.scalar true (.ofList text), []) := by
  cases h with
  | unsigned nonempty bare =>
    match text, nonempty with
    | c :: text, _ =>
      have plain := readsPlain_of_all_isBareChar bare
      rw [List.all_cons, Bool.and_eq_true] at bare
      have indicator := isIndicator_eq_false_of_isBareChar bare.1
      have starts : Yaml.startsPlain false c (text ++ []) = true := by
        have notDash : c ≠ '-' := by rintro rfl; cases indicator
        have notMark : c ≠ '?' := by rintro rfl; cases indicator
        have notColon : c ≠ ':' := by rintro rfl; cases indicator
        simp [Yaml.startsPlain, notDash, notMark, notColon, indicator,
          isSpaceOrTab_eq_false_of_isBareChar bare.1,
          Yaml.isBreak_eq_false_of_isPrintable (isPrintable_of_isBareChar bare.1)]
      simpa using plain.lineScalar starts .nil
  | @negative text nonempty bare =>
    match text, nonempty with
    | c :: text, _ =>
      have plain : Yaml.ReadsPlain ('-' :: c :: text) :=
        .other rfl rfl (fun colon => by cases colon) (readsPlain_of_all_isBareChar bare)
      rw [List.all_cons, Bool.and_eq_true] at bare
      have starts : Yaml.startsPlain false '-' ((c :: text) ++ []) = true := by
        simp [Yaml.startsPlain, Yaml.blankNext, isSpaceOrTab_eq_false_of_isBareChar bare.1,
          Yaml.isBreak_eq_false_of_isPrintable (isPrintable_of_isBareChar bare.1)]
      simpa using plain.lineScalar starts .nil

/-- **A typed scalar is read back as its bare text.** -/
theorem Scalar.lineScalar_bareText {value : Scalar} (typed : value.isTyped = true) :
    Yaml.lineScalar value.bareText.toList = some (.scalar true value.bareText, []) := by
  rw [(isBare_bareText typed).lineScalar, String.ofList_toList]

end AzurePipelines
