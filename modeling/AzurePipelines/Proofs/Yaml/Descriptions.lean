import AzurePipelines.Proofs.Yaml.BareText
import AzurePipelines.Yaml.Datum
import Mathlib

/-!
# What descriptions tell

An error shows a datum by its description.  A description tells by itself where it ends, so that
nothing behind it or around it can be taken for a part of it, and it tells what it describes: two
data have the same description exactly if they are the same but for the mark in front of a tag and
for what the text of a floating-point number leaves out (`Datum.describe_eq_iff`).

Tags are shown as they are, and a tag that holds what stands behind a tag could be taken for a
shorter one.  Tags without a comma cannot (`Datum.HasPlainTags`).
-/

namespace AzurePipelines

/-! ## Texts that end at a mark -/

/-- A text that does not hold a mark ends in front of the mark. -/
theorem eq_of_append_mark {c : Char} {text other rest rest' : List Char} (free : c ∉ text)
    (free' : c ∉ other) (same : text ++ c :: rest = other ++ c :: rest') :
    text = other ∧ rest = rest' := by
  have upToMark {word more : List Char} (free : c ∉ word) :
      (word ++ c :: more).takeWhile (· != c) = word := by
    rw [List.takeWhile_append_of_pos, List.takeWhile_cons_of_neg (by simp), List.append_nil]
    intro d member
    exact bne_iff_ne.2 fun mark => free (mark ▸ member)
  obtain rfl : text = other :=
    (upToMark free).symm.trans ((congrArg _ same).trans (upToMark free'))
  exact ⟨rfl, (List.cons.inj (List.append_cancel_left same)).2⟩

namespace Yaml

/-! ## Characters between double quotes -/

theorem exists_digitChar_of_mem_toDigits {n : Nat} {c : Char} (member : c ∈ Nat.toDigits 16 n) :
    ∃ d < 16, c = Nat.digitChar d := by
  induction n using Nat.strongRecOn with
  | ind n ih =>
    rw [Nat.toDigits_eq_if (by decide)] at member
    split at member
    · exact ⟨n, by assumption, List.mem_singleton.1 member⟩
    · cases List.mem_append.1 member with
      | inl member => exact ih (n / 16) (by omega) member
      | inr member => exact ⟨n % 16, by omega, List.mem_singleton.1 member⟩

/-- A number is read back from its digits. -/
theorem foldl_toDigits (n : Nat) :
    (Nat.toDigits 16 n).foldl (fun value c => 16 * value + (hexDigit? c).getD 0) 0 = n := by
  have digit : ∀ d < 16, (hexDigit? (Nat.digitChar d)).getD 0 = d := by decide
  induction n using Nat.strongRecOn with
  | ind n ih =>
    by_cases small : n < 16
    · rw [Nat.toDigits_of_lt_base small, List.foldl_cons, digit n small]
      exact Nat.zero_add n
    · rw [Nat.toDigits_of_base_le (by decide) (by omega), List.foldl_append, ih (n / 16) (by omega),
        List.foldl_cons, digit (n % 16) (by omega)]
      exact Nat.div_add_mod n 16

/-- The characters that are shown by a sign behind a backslash. -/
def shownSigns : List (Char × Char) :=
  [('\x00', '0'), ('\t', 't'), ('\r', 'r'), ('\n', 'n'), ('\\', '\\'), ('"', '"')]

/-- A text shows the character first, by its sign, as itself or by its code, and then goes on. -/
inductive Shows (c : Char) (rest : List Char) : List Char → Prop
  | sign {sign : Char} : (c, sign) ∈ shownSigns → Shows c rest ('\\' :: sign :: rest)
  | itself : c ≠ '\\' → c ≠ '"' → Shows c rest (c :: rest)
  | code {text : List Char} : text = Nat.toDigits 16 c.toNat ++ '}' :: rest →
    Shows c rest ('\\' :: 'u' :: '{' :: text)

theorem shows_shownChar (c : Char) (rest : List Char) :
    Shows c rest (Datum.shownChar c ++ rest) := by
  have signs : ∀ one ∈ shownSigns, Datum.shownChar one.1 = ['\\', one.2] := by decide
  by_cases special : c ∈ shownSigns.map Prod.fst
  · obtain ⟨one, listed, rfl⟩ := List.mem_map.1 special
    rw [signs one listed]
    exact .sign listed
  have plain : c ≠ '\x00' ∧ c ≠ '\t' ∧ c ≠ '\r' ∧ c ≠ '\n' ∧ c ≠ '\\' ∧ c ≠ '"' := by
    simpa [shownSigns] using special
  cases visible : Text.isVisible c with
  | true =>
    have shown : Datum.shownChar c = [c] := by simp [Datum.shownChar, plain, visible]
    rw [shown]
    exact .itself plain.2.2.2.2.1 plain.2.2.2.2.2
  | false =>
    have shown : Datum.shownChar c = '\\' :: 'u' :: '{' :: (Nat.toDigits 16 c.toNat ++ ['}']) := by
      simp [Datum.shownChar, plain, visible]
    rw [shown]
    exact .code (List.append_assoc _ ['}'] rest)

namespace Shows

variable {c d : Char} {text rest rest' : List Char}

/-- A text that shows a character does not start with the closing quote. -/
theorem head_ne (shows : Shows c rest text) : text.head? ≠ some '"' := by
  cases shows with
  | sign _ => simp
  | itself _ notQuote => simpa using notQuote
  | code _ => simp

/-- A text shows one character first. -/
theorem unique (shows : Shows c rest text) (shows' : Shows d rest' text) :
    c = d ∧ rest = rest' := by
  have signs : ∀ one ∈ shownSigns, ∀ other ∈ shownSigns, one.2 = other.2 → one.1 = other.1 := by
    decide
  have noCode : ∀ one ∈ shownSigns, one.2 ≠ 'u' := by decide
  cases shows with
  | sign listed =>
    cases shows' with
    | sign listed' => exact ⟨signs _ listed _ listed' rfl, rfl⟩
    | itself plain _ => exact absurd rfl plain
    | code _ => exact absurd rfl (noCode _ listed)
  | itself plain _ =>
    cases shows' with
    | sign _ => exact absurd rfl plain
    | itself _ _ => exact ⟨rfl, rfl⟩
    | code _ => exact absurd rfl plain
  | code digits =>
    cases shows' with
    | sign listed => exact absurd rfl (noCode _ listed)
    | itself plain _ => exact absurd rfl plain
    | code digits' =>
      have noBrace (n : Nat) : '}' ∉ Nat.toDigits 16 n := fun member => by
        obtain ⟨d, small, brace⟩ := exists_digitChar_of_mem_toDigits member
        exact absurd brace.symm ((by decide : ∀ d < 16, Nat.digitChar d ≠ '}') d small)
      obtain ⟨same, tail⟩ := eq_of_append_mark (noBrace _) (noBrace _) (digits.symm.trans digits')
      have code := congrArg (List.foldl (fun value c => 16 * value + (hexDigit? c).getD 0) 0) same
      rw [foldl_toDigits, foldl_toDigits] at code
      exact ⟨Char.toNat_inj.1 code, tail⟩

end Shows

/-- A text between double quotes ends at its closing quote, whatever it holds. -/
theorem eq_of_shownText_append {text other : String} {rest rest' : List Char}
    (same : (Datum.shownText text).toList ++ rest = (Datum.shownText other).toList ++ rest') :
    text = other ∧ rest = rest' := by
  have inside : text.toList.flatMap Datum.shownChar ++ '"' :: rest =
      other.toList.flatMap Datum.shownChar ++ '"' :: rest' := by
    simpa [Datum.shownText] using same
  rw [← String.toList_inj]
  clear same
  generalize text.toList = chars at inside
  generalize other.toList = others at inside
  induction chars generalizing others with
  | nil =>
    cases others with
    | nil => exact ⟨rfl, (List.cons.inj inside).2⟩
    | cons d others =>
      rw [List.flatMap_cons, List.append_assoc] at inside
      exact absurd (congrArg List.head? inside).symm (shows_shownChar d _).head_ne
  | cons c chars ih =>
    rw [List.flatMap_cons, List.append_assoc] at inside
    have first := shows_shownChar c (chars.flatMap Datum.shownChar ++ '"' :: rest)
    rw [inside] at first
    cases others with
    | nil => exact absurd rfl first.head_ne
    | cons d others =>
      rw [List.flatMap_cons, List.append_assoc] at first
      obtain ⟨rfl, tail⟩ := first.unique (shows_shownChar d _)
      obtain ⟨rfl, rest⟩ := ih others tail
      exact ⟨rfl, rest⟩

/-! ## Texts of numbers -/

/-- A sign of the text of a number. -/
def isNumberSign (c : Char) : Bool := c.isDigit || ['-', '.', 'a', 'e', 'f', 'i', 'n'].contains c

theorem isNumberSign_of_isDigit (c : Char) (h : c.isDigit = true) : isNumberSign c = true := by
  rw [isNumberSign, h, Bool.true_or]

theorem all_isNumberSign_toString (n : Int) : (toString n).toList.all isNumberSign = true :=
  all_toString isNumberSign_of_isDigit rfl n

theorem all_isNumberSign_scientific (d : Decimal) : d.scientific.all isNumberSign = true := by
  have digits := all_toDigits isNumberSign_of_isDigit d.digits
  have exponent := all_isNumberSign_toString
    (d.exponent + ((Nat.toDigits 10 d.digits).length : Int) - 1)
  unfold Decimal.scientific
  dsimp only
  split
  · rfl
  · rename_i first single
    rw [single] at digits exponent
    simp_all [isNumberSign]
  · rename_i first rest _ several
    rw [several] at digits exponent
    simp_all [isNumberSign]

namespace Datum

theorem all_isNumberSign_floatText (x : Binary64) :
    (floatText x).all isNumberSign = true := by
  have finite : (finiteText x).all isNumberSign = true := by
    have positional := (x.shortest .even).all_positional isNumberSign_of_isDigit rfl
    unfold finiteText
    dsimp only
    split
    · rfl
    split
    · rw [List.all_append, positional]
      rfl
    split
    · exact positional
    · exact all_isNumberSign_scientific _
  unfold floatText
  split
  · rfl
  split
  · exact x.all_withSign rfl finite
  · exact x.all_withSign rfl rfl

theorem point_mem_positional {d : Decimal} (places : d.exponent < 0) : '.' ∈ d.positional := by
  unfold Decimal.positional
  dsimp only
  rw [if_neg (not_le.2 places)]
  split
  · exact List.mem_append_right _ List.mem_cons_self
  · exact List.mem_cons_of_mem _ List.mem_cons_self

theorem e_mem_scientific (d : Decimal) : 'e' ∈ d.scientific := by
  unfold Decimal.scientific
  dsimp only
  split
  · rename_i nothing
    exact absurd nothing Nat.toDigits_ne_nil
  · exact List.mem_cons_of_mem _ List.mem_cons_self
  · exact List.mem_append_right _ List.mem_cons_self

/-- The text of a floating-point number has a sign that the text of an integer has not. -/
theorem exists_mem_floatText (x : Binary64) : ∃ c ∈ floatText x, c = '.' ∨ c = 'e' := by
  have behindSign {text : List Char} {c : Char} (member : c ∈ text) : c ∈ x.withSign text := by
    unfold Binary64.withSign
    split
    · exact List.mem_cons_of_mem _ member
    · exact member
  unfold floatText
  split
  · exact ⟨'.', by decide, .inl rfl⟩
  split
  · unfold finiteText
    dsimp only
    split
    · exact ⟨'.', behindSign (by decide), .inl rfl⟩
    split
    · exact ⟨'.', behindSign (List.mem_append_right _ (by decide)), .inl rfl⟩
    rename_i notWhole
    split
    · exact ⟨'.', behindSign (point_mem_positional (by omega)), .inl rfl⟩
    · exact ⟨'e', behindSign (e_mem_scientific _), .inr rfl⟩
  · exact ⟨'.', behindSign (by decide), .inl rfl⟩

/-! ## Data that are shown alike -/

/-- The data are the same, but for the mark in front of a tag and for what the text of a
floating-point number leaves out. -/
inductive Alike : Datum → Datum → Prop
  | null : Alike .null .null
  | boolean (b : Bool) : Alike (.boolean b) (.boolean b)
  | integer (n : Int) : Alike (.integer n) (.integer n)
  | float {x y : Binary64} : floatText x = floatText y → Alike (.float x) (.float y)
  | string (text : String) : Alike (.string text) (.string text)
  | sequence {items others : List Datum} :
    List.Forall₂ Alike items others → Alike (.sequence items) (.sequence others)
  | mapping {entries others : List (Datum × Datum)} :
    List.Forall₂ Alike (entries.map Prod.fst) (others.map Prod.fst) →
    List.Forall₂ Alike (entries.map Prod.snd) (others.map Prod.snd) →
    Alike (.mapping entries) (.mapping others)
  | tagged {tag other : String} {value value' : Datum} : bareTag tag = bareTag other →
    Alike value value' → Alike (.tagged tag value) (.tagged other value')

/-! ### Descriptions by their parts -/

theorem describeItems_eq_map (items : List Datum) :
    describeItems items = items.map (describe false) := by
  induction items with
  | nil => rfl
  | cons item rest ih => exact congrArg (item.describe false :: ·) ih

theorem describe_sequence (isKey : Bool) (items : List Datum) :
    describe isKey (.sequence items) =
      "Sequence [" ++ ", ".intercalate (items.map (describe false)) ++ "]" :=
  congrArg (fun shown => "Sequence [" ++ ", ".intercalate shown ++ "]") (describeItems_eq_map items)

/-- An entry of a mapping with its colon. -/
def describeEntry (entry : Datum × Datum) : String :=
  entry.1.describe true ++ ": " ++ entry.2.describe false

theorem describeEntries_eq_map (entries : List (Datum × Datum)) :
    describeEntries entries = entries.map describeEntry := by
  induction entries with
  | nil => rfl
  | cons entry rest ih => exact congrArg (describeEntry entry :: ·) ih

theorem describe_mapping (isKey : Bool) (entries : List (Datum × Datum)) :
    describe isKey (.mapping entries) =
      "Mapping \x7b" ++ ", ".intercalate (entries.map describeEntry) ++ "\x7d" :=
  congrArg (fun shown => "Mapping \x7b" ++ ", ".intercalate shown ++ "\x7d")
    (describeEntries_eq_map entries)

theorem describe_tagged (isKey : Bool) (tag : String) (value : Datum) :
    describe isKey (.tagged tag value) =
      "TaggedValue \x7b tag: !" ++ bareTag tag ++ ", value: " ++ value.describe false ++ " \x7d" :=
  rfl

/-! ### The same data, the same description -/

theorem map_eq_of_forall₂ {α β : Type} {related : α → α → Prop} {f : α → β} {xs ys : List α}
    (pairs : List.Forall₂ related xs ys) (each : ∀ x ∈ xs, ∀ y, related x y → f x = f y) :
    xs.map f = ys.map f := by
  induction pairs with
  | nil => rfl
  | cons pair pairs ih =>
    rw [List.forall_mem_cons] at each
    rw [List.map_cons, List.map_cons, each.1 _ pair, ih each.2]

/-- Keys are related in pairs, and so are values, if entries are. -/
theorem forall₂_entries_iff {related : Datum → Datum → Prop}
    {entries others : List (Datum × Datum)} :
    List.Forall₂ (fun one other => related one.1 other.1 ∧ related one.2 other.2) entries others ↔
      List.Forall₂ related (entries.map Prod.fst) (others.map Prod.fst) ∧
        List.Forall₂ related (entries.map Prod.snd) (others.map Prod.snd) := by
  induction entries generalizing others with
  | nil => cases others <;> simp
  | cons entry entries ih =>
    cases others with
    | nil => simp
    | cons other others =>
      simp only [List.map_cons, List.forall₂_cons, ih]
      exact and_and_and_comm

/-- What holds of a datum once it holds of all data in it holds of all data. -/
theorem inside_induction {motive : Datum → Prop} (null : motive .null)
    (boolean : ∀ b, motive (.boolean b)) (integer : ∀ n, motive (.integer n))
    (float : ∀ x, motive (.float x)) (string : ∀ text, motive (.string text))
    (sequence : ∀ items, (∀ item ∈ items, motive item) → motive (.sequence items))
    (mapping : ∀ entries, (∀ key ∈ entries.map Prod.fst, motive key) →
      (∀ value ∈ entries.map Prod.snd, motive value) → motive (.mapping entries))
    (tagged : ∀ tag value, motive value → motive (.tagged tag value)) (d : Datum) : motive d :=
  @Datum.rec motive (fun items => ∀ item ∈ items, motive item)
    (fun entries => (∀ key ∈ entries.map Prod.fst, motive key) ∧
      ∀ value ∈ entries.map Prod.snd, motive value)
    (fun entry => motive entry.1 ∧ motive entry.2)
    null boolean integer float string sequence
    (fun entries inside => mapping entries inside.1 inside.2) tagged
    (List.forall_mem_nil _) (fun _ _ first rest => List.forall_mem_cons.2 ⟨first, rest⟩)
    ⟨List.forall_mem_nil _, List.forall_mem_nil _⟩
    (fun _ _ first rest =>
      ⟨List.forall_mem_cons.2 ⟨first.1, rest.1⟩, List.forall_mem_cons.2 ⟨first.2, rest.2⟩⟩)
    (fun _ _ key value => ⟨key, value⟩) d

/-- Data that are alike have the same description. -/
theorem Alike.describe_eq {a b : Datum} (alike : a.Alike b) (isKey : Bool) :
    a.describe isKey = b.describe isKey := by
  induction a using inside_induction generalizing b isKey with
  | null => cases alike with | null => rfl
  | boolean _ => cases alike with | boolean _ => rfl
  | integer _ => cases alike with | integer _ => rfl
  | string _ => cases alike with | string _ => rfl
  | float x =>
    cases alike with
    | float same => exact congrArg (fun text => ofKind isKey "Number" (String.ofList text)) same
  | sequence items ih =>
    cases alike with
    | sequence pairs =>
      rw [describe_sequence, describe_sequence,
        map_eq_of_forall₂ pairs fun item member _ alike => ih item member alike false]
  | mapping entries keyIh valueIh =>
    cases alike with
    | mapping keys values =>
      have entryIh : ∀ entry ∈ entries, ∀ other : Datum × Datum,
          entry.1.Alike other.1 ∧ entry.2.Alike other.2 →
            describeEntry entry = describeEntry other := by
        intro entry member other alike
        rw [describeEntry, keyIh entry.1 (List.mem_map_of_mem member) alike.1 true,
          valueIh entry.2 (List.mem_map_of_mem member) alike.2 false, describeEntry]
      rw [describe_mapping, describe_mapping,
        map_eq_of_forall₂ (forall₂_entries_iff.2 ⟨keys, values⟩) entryIh]
  | tagged tag value ih =>
    cases alike with
    | tagged bare alike => rw [describe_tagged, describe_tagged, bare, ih alike false]

/-! ## Bare texts -/

/-- The text of a boolean or a number, which a key is shown as without quotes. -/
inductive ShownBare : Datum → List Char → Prop
  | boolean {b : Bool} {text : List Char} :
    text = (if b then "true" else "false").toList → ShownBare (.boolean b) text
  | integer {n : Int} {text : List Char} : text = (toString n).toList → ShownBare (.integer n) text
  | float {x : Binary64} {text : List Char} : text = floatText x → ShownBare (.float x) text

/-- A sign of a bare text. -/
def isBareSign (c : Char) : Bool := isNumberSign c || c.isLower

namespace ShownBare

variable {a b : Datum} {text other : List Char}

theorem all_isBareSign (bare : ShownBare a text) : text.all isBareSign = true := by
  have number {text : List Char} (signs : text.all isNumberSign = true) :
      text.all isBareSign = true := by
    refine List.all_eq_true.2 fun c member => ?_
    exact Bool.or_eq_true_iff.2 (.inl (List.all_eq_true.1 signs c member))
  cases bare with
  | @boolean b _ text =>
    rw [text]
    cases b <;> decide
  | integer text =>
    rw [text]
    exact number (all_isNumberSign_toString _)
  | float text =>
    rw [text]
    exact number (all_isNumberSign_floatText _)

theorem ne_nil (bare : ShownBare a text) : text ≠ [] := by
  cases bare with
  | @boolean b _ text =>
    rw [text]
    cases b <;> decide
  | @integer n _ text =>
    rw [text]
    exact (isBare_toString n).ne_nil
  | @float x _ text =>
    rw [text]
    obtain ⟨c, member, -⟩ := exists_mem_floatText x
    exact List.ne_nil_of_mem member

/-- A boolean or a number is told by its text. -/
theorem alike (bare : ShownBare a text) (bare' : ShownBare b text) : a.Alike b := by
  have notNumber {b : Bool} (signs : text.all isNumberSign = true) :
      text ≠ (if b then "true" else "false").toList := by
    rintro rfl
    revert signs
    cases b <;> decide
  have integerSigns {n : Int} (shown : text = (toString n).toList) :
      text.all isNumberSign = true := shown ▸ all_isNumberSign_toString n
  have floatSigns {x : Binary64} (shown : text = floatText x) : text.all isNumberSign = true :=
    shown ▸ all_isNumberSign_floatText x
  have notInteger {n : Int} {x : Binary64} (shown : text = floatText x) :
      text ≠ (toString n).toList := by
    intro digits
    obtain ⟨c, member, sign⟩ := exists_mem_floatText x
    have signs := all_toString (p := fun c => c.isDigit || c == '-') (by simp +contextual) rfl n
    rw [← digits, shown, List.all_eq_true] at signs
    have signs := signs c member
    obtain rfl | rfl := sign
    · exact absurd signs (by decide)
    · exact absurd signs (by decide)
  cases bare with
  | @boolean b _ shown =>
    cases bare' with
    | @boolean c _ shown' =>
      have same := shown.symm.trans shown'
      obtain rfl : b = c := by
        revert same
        cases b <;> cases c <;> decide
      exact .boolean b
    | integer shown' => exact absurd shown (notNumber (integerSigns shown'))
    | float shown' => exact absurd shown (notNumber (floatSigns shown'))
  | @integer n _ shown =>
    cases bare' with
    | boolean shown' => exact absurd shown' (notNumber (integerSigns shown))
    | @integer m _ shown' =>
      have same := String.toList_inj.1 (shown.symm.trans shown')
      rw [Int.toString_eq_repr, Int.toString_eq_repr, Int.repr_inj] at same
      exact same ▸ .integer n
    | float shown' => exact absurd shown (notInteger shown')
  | float shown =>
    cases bare' with
    | boolean shown' => exact absurd shown' (notNumber (floatSigns shown))
    | integer shown' => exact absurd shown' (notInteger shown)
    | float shown' => exact .float (shown.symm.trans shown')

end ShownBare

/-! ## Forms -/

/-- The forms of data that descriptions tell apart by how they start. -/
inductive Form where
  | null
  | boolean
  | number
  | string
  | sequence
  | mapping
  | tagged
deriving DecidableEq

def form : Datum → Form
  | .null => .null
  | .boolean _ => .boolean
  | .integer _ | .float _ => .number
  | .string _ => .string
  | .sequence _ => .sequence
  | .mapping _ => .mapping
  | .tagged _ _ => .tagged

/-- What a description starts with that is not that of a key. -/
def Form.lead : Form → String
  | null => "Null"
  | boolean => "Bool("
  | number => "Number("
  | string => "String("
  | sequence => "Sequence ["
  | mapping => "Mapping \x7b"
  | tagged => "TaggedValue \x7b tag: !"

theorem Form.eq_of_lead_prefix {one other : Form}
    (starts : one.lead.toList <+: other.lead.toList) : one = other := by
  revert starts
  cases one <;> cases other <;> decide

/-- What the description of a key starts with, unless it is bare. -/
def Form.keyHead : Form → Option Char
  | null => some 'N'
  | boolean | number => none
  | string => some '"'
  | sequence => some 'S'
  | mapping => some 'M'
  | tagged => some 'T'

/-- Two data of one form, or two that are shown bare. -/
inductive SameForm : Datum → Datum → Prop
  | null : SameForm .null .null
  | bare {a b : Datum} {text other : List Char} : ShownBare a text → ShownBare b other →
    SameForm a b
  | string (text other : String) : SameForm (.string text) (.string other)
  | sequence (items others : List Datum) : SameForm (.sequence items) (.sequence others)
  | mapping (entries others : List (Datum × Datum)) : SameForm (.mapping entries) (.mapping others)
  | tagged (tag other : String) (value value' : Datum) :
    SameForm (.tagged tag value) (.tagged other value')

theorem sameForm_of_keyHead {a b : Datum} (same : a.form.keyHead = b.form.keyHead) :
    SameForm a b := by
  have bare {c : Datum} (none : none = c.form.keyHead) : ∃ text, ShownBare c text := by
    cases c with
    | boolean b => exact ⟨_, .boolean rfl⟩
    | integer n => exact ⟨_, .integer rfl⟩
    | float x => exact ⟨_, .float rfl⟩
    | _ => cases none
  cases a with
  | null => cases b <;> first | exact .null | cases same
  | boolean _ =>
    obtain ⟨text, shown⟩ := bare same
    exact .bare (.boolean rfl) shown
  | integer _ =>
    obtain ⟨text, shown⟩ := bare same
    exact .bare (.integer rfl) shown
  | float _ =>
    obtain ⟨text, shown⟩ := bare same
    exact .bare (.float rfl) shown
  | string text => cases b <;> first | exact .string text _ | cases same
  | sequence items => cases b <;> first | exact .sequence items _ | cases same
  | mapping entries => cases b <;> first | exact .mapping entries _ | cases same
  | tagged tag value => cases b <;> first | exact .tagged tag _ value _ | cases same

/-! ## Descriptions with what follows -/

/-- What follows a description: behind that of a key, a colon comes first. -/
def follows (isKey : Bool) (rest : List Char) : List Char := if isKey then ':' :: rest else rest

/-- The sign behind a text that may be in parentheses. -/
def stop (isKey : Bool) : Char := if isKey then ':' else ')'

/-- A description with what follows it. -/
def shown (isKey : Bool) (a : Datum) (rest : List Char) : List Char :=
  (a.describe isKey).toList ++ follows isKey rest

theorem ofKind_append (isKey : Bool) (kind text : String) (rest : List Char) :
    (ofKind isKey kind text).toList ++ follows isKey rest =
      (if isKey then [] else (kind ++ "(").toList) ++ (text.toList ++ stop isKey :: rest) := by
  cases isKey with
  | true => rfl
  | false =>
    have shape : ofKind false kind text = kind ++ "(" ++ text ++ ")" := rfl
    have close : (")" : String).toList = [')'] := rfl
    rw [shape, String.toList_append, String.toList_append, close, List.append_assoc,
      List.append_assoc]
    rfl

theorem shown_bare {a : Datum} {text : List Char} (bare : ShownBare a text) (isKey : Bool)
    (rest : List Char) : shown isKey a rest =
      (if isKey then [] else a.form.lead.toList) ++ (text ++ stop isKey :: rest) := by
  cases bare with
  | boolean text => exact text ▸ ofKind_append isKey "Bool" _ rest
  | integer text => exact text ▸ ofKind_append isKey "Number" _ rest
  | @float x _ text =>
    rw [text, ← String.toList_ofList (l := floatText x)]
    exact ofKind_append isKey "Number" _ rest

theorem shown_string (isKey : Bool) (text : String) (rest : List Char) :
    shown isKey (.string text) rest =
      (if isKey then [] else Form.string.lead.toList) ++
        ((shownText text).toList ++ stop isKey :: rest) :=
  ofKind_append isKey "String" _ rest

theorem shown_sequence (isKey : Bool) (items : List Datum) (rest : List Char) :
    shown isKey (.sequence items) rest = Form.sequence.lead.toList ++
      (", ".toList.intercalate (items.map fun item => (item.describe false).toList) ++
        ']' :: follows isKey rest) := by
  rw [shown, describe_sequence]
  simp [String.toList_intercalate, Form.lead, Function.comp_def]

theorem shown_mapping (isKey : Bool) (entries : List (Datum × Datum)) (rest : List Char) :
    shown isKey (.mapping entries) rest = Form.mapping.lead.toList ++
      (", ".toList.intercalate (entries.map fun entry => (describeEntry entry).toList) ++
        '}' :: follows isKey rest) := by
  rw [shown, describe_mapping]
  simp [String.toList_intercalate, Form.lead, Function.comp_def]

theorem shown_tagged (isKey : Bool) (tag : String) (value : Datum) (rest : List Char) :
    shown isKey (.tagged tag value) rest = Form.tagged.lead.toList ++
      ((bareTag tag).toList ++ ',' :: (" value: ".toList ++
        shown false value (' ' :: '}' :: follows isKey rest))) := by
  rw [shown, describe_tagged]
  simp [Form.lead, shown, follows]

theorem lead_prefix_shown (a : Datum) (rest : List Char) :
    a.form.lead.toList <+: shown false a rest := by
  cases a with
  | null => exact List.prefix_append _ _
  | boolean b =>
    rw [shown_bare (.boolean rfl)]
    exact List.prefix_append _ _
  | integer n =>
    rw [shown_bare (.integer rfl)]
    exact List.prefix_append _ _
  | float x =>
    rw [shown_bare (.float rfl)]
    exact List.prefix_append _ _
  | string text =>
    rw [shown_string]
    exact List.prefix_append _ _
  | sequence items =>
    rw [shown_sequence]
    exact List.prefix_append _ _
  | mapping entries =>
    rw [shown_mapping]
    exact List.prefix_append _ _
  | tagged tag value =>
    rw [shown_tagged]
    exact List.prefix_append _ _

theorem keyHead_shown (a : Datum) (rest : List Char) :
    (shown true a rest).head?.filter (!isBareSign ·) = a.form.keyHead := by
  have ofBare {text : List Char} (bare : ShownBare a text) :
      (shown true a rest).head?.filter (!isBareSign ·) = none := by
    have signs := bare.all_isBareSign
    rw [shown_bare bare]
    cases text with
    | nil => exact absurd rfl bare.ne_nil
    | cons c text =>
      rw [List.all_cons, Bool.and_eq_true] at signs
      simp [Option.filter, signs.1]
  cases a with
  | null => rfl
  | boolean b => exact ofBare (.boolean rfl)
  | integer n => exact ofBare (.integer rfl)
  | float x => exact ofBare (.float rfl)
  | string text =>
    rw [shown_string]
    simp [shownText, Form.keyHead, form, isBareSign, isNumberSign]
  | sequence items =>
    rw [shown_sequence]
    rfl
  | mapping entries =>
    rw [shown_mapping]
    rfl
  | tagged tag value =>
    rw [shown_tagged]
    rfl

theorem form_eq_of_shown {a b : Datum} {rest rest' : List Char}
    (same : shown false a rest = shown false b rest') : a.form = b.form := by
  have starts := lead_prefix_shown a rest
  rw [same] at starts
  cases List.prefix_or_prefix_of_prefix starts (lead_prefix_shown b rest') with
  | inl shorter => exact Form.eq_of_lead_prefix shorter
  | inr shorter => exact (Form.eq_of_lead_prefix shorter).symm

theorem sameForm_of_shown {a b : Datum} {isKey : Bool} {rest rest' : List Char}
    (same : shown isKey a rest = shown isKey b rest') : SameForm a b := by
  apply sameForm_of_keyHead
  cases isKey with
  | true => rw [← keyHead_shown a rest, same, keyHead_shown]
  | false => rw [form_eq_of_shown same]

/-! ## Lists -/

section Lists

variable {α : Type} {write : α → List Char} {related : α → α → Prop} {close : Char}
  {xs ys : List α} {rest rest' : List Char}

theorem intercalate_cons_eq_flatMap (separator first : List Char) (others : List (List Char)) :
    separator.intercalate (first :: others) =
      first ++ others.flatMap fun other => separator ++ other := by
  induction others generalizing first with
  | nil => simp
  | cons other others ih =>
    rw [List.intercalate_cons_cons, ih, List.flatMap_cons, List.append_assoc, List.append_assoc]

/-- Items that come after others end at the closing sign. -/
theorem forall₂_of_continued (notComma : close ≠ ',')
    (told : ∀ x ∈ xs, ∀ y ∈ ys, ∀ s t, write x ++ s = write y ++ t → related x y ∧ s = t)
    (same : (xs.flatMap fun x => ", ".toList ++ write x) ++ close :: rest =
      (ys.flatMap fun y => ", ".toList ++ write y) ++ close :: rest') :
    List.Forall₂ related xs ys ∧ rest = rest' := by
  induction xs generalizing ys with
  | nil =>
    cases ys with
    | nil => exact ⟨.nil, (List.cons.inj same).2⟩
    | cons y ys => exact absurd (List.cons.inj same).1 notComma
  | cons x xs ih =>
    cases ys with
    | nil => exact absurd (List.cons.inj same).1.symm notComma
    | cons y ys =>
      simp only [List.flatMap_cons, List.append_assoc] at same
      obtain ⟨pair, others⟩ := told x List.mem_cons_self y List.mem_cons_self _ _
        (List.append_cancel_left same)
      obtain ⟨pairs, rest⟩ := ih (fun x inXs y inYs =>
        told x (List.mem_cons_of_mem _ inXs) y (List.mem_cons_of_mem _ inYs)) others
      exact ⟨.cons pair pairs, rest⟩

/-- A list ends at its closing sign, with which no item starts. -/
theorem forall₂_of_listed (notComma : close ≠ ',')
    (told : ∀ x ∈ xs, ∀ y ∈ ys, ∀ s t, write x ++ s = write y ++ t → related x y ∧ s = t)
    (opens : ∀ x s, (write x ++ s).head? ≠ some close)
    (same : ", ".toList.intercalate (xs.map write) ++ close :: rest =
      ", ".toList.intercalate (ys.map write) ++ close :: rest') :
    List.Forall₂ related xs ys ∧ rest = rest' := by
  cases xs with
  | nil =>
    cases ys with
    | nil => exact ⟨.nil, (List.cons.inj same).2⟩
    | cons y ys =>
      rw [List.map_cons, intercalate_cons_eq_flatMap, List.append_assoc] at same
      exact absurd (congrArg List.head? same).symm (opens y _)
  | cons x xs =>
    rw [List.map_cons, intercalate_cons_eq_flatMap, List.append_assoc] at same
    cases ys with
    | nil => exact absurd (congrArg List.head? same) (opens x _)
    | cons y ys =>
      rw [List.map_cons, intercalate_cons_eq_flatMap, List.append_assoc, List.flatMap_map,
        List.flatMap_map] at same
      obtain ⟨pair, others⟩ := told x List.mem_cons_self y List.mem_cons_self _ _ same
      obtain ⟨pairs, rest⟩ := forall₂_of_continued notComma (fun x inXs y inYs =>
        told x (List.mem_cons_of_mem _ inXs) y (List.mem_cons_of_mem _ inYs)) others
      exact ⟨.cons pair pairs, rest⟩

end Lists

/-! ## Tags -/

/-- A tag of the datum or of one inside it. -/
inductive HasTag : Datum → String → Prop
  | self {tag : String} {value : Datum} : HasTag (.tagged tag value) tag
  | inner {tag outer : String} {value : Datum} : HasTag value tag → HasTag (.tagged outer value) tag
  | item {items : List Datum} {item : Datum} {tag : String} :
    item ∈ items → HasTag item tag → HasTag (.sequence items) tag
  | key {entries : List (Datum × Datum)} {key : Datum} {tag : String} :
    key ∈ entries.map Prod.fst → HasTag key tag → HasTag (.mapping entries) tag
  | value {entries : List (Datum × Datum)} {value : Datum} {tag : String} :
    value ∈ entries.map Prod.snd → HasTag value tag → HasTag (.mapping entries) tag

/-- No tag of the datum holds a comma. -/
def HasPlainTags (d : Datum) : Prop := ∀ tag, d.HasTag tag → ',' ∉ tag.toList

theorem comma_notMem_bareTag {tag : String} (plain : ',' ∉ tag.toList) :
    ',' ∉ (bareTag tag).toList := by
  unfold bareTag
  split
  · rename_i c rest shape
    rw [shape, List.mem_cons, not_or] at plain
    rw [String.toList_ofList]
    exact plain.2
  · exact plain

/-! ## What descriptions tell -/

/-- No description starts with a closing bracket. -/
theorem head?_shown_ne {close : Char} (bracket : close = ']' ∨ close = '\x7d') (isKey : Bool)
    (a : Datum) (rest : List Char) : (shown isKey a rest).head? ≠ some close := by
  cases isKey with
  | true =>
    intro starts
    have told := keyHead_shown a rest
    rw [starts] at told
    obtain rfl | rfl := bracket
    · revert told
      cases a.form <;> decide
    · revert told
      cases a.form <;> decide
  | false =>
    obtain ⟨more, shape⟩ := lead_prefix_shown a rest
    rw [← shape]
    obtain rfl | rfl := bracket
    · cases a.form <;> simp [Form.lead]
    · cases a.form <;> simp [Form.lead]

theorem alike_of_shown_bare {a b : Datum} {text other : List Char} (bare : ShownBare a text)
    (bare' : ShownBare b other) {isKey : Bool} {rest rest' : List Char}
    (same : shown isKey a rest = shown isKey b rest') : a.Alike b ∧ rest = rest' := by
  have noStop {c : Datum} {text : List Char} (bare : ShownBare c text) : stop isKey ∉ text := by
    intro member
    have sign := List.all_eq_true.1 bare.all_isBareSign _ member
    revert sign
    cases isKey <;> decide
  have leads : (if isKey then [] else a.form.lead.toList) =
      if isKey then [] else b.form.lead.toList := by
    cases isKey with
    | true => rfl
    | false => rw [form_eq_of_shown same]
  rw [shown_bare bare, shown_bare bare', leads] at same
  obtain ⟨rfl, rest⟩ :=
    eq_of_append_mark (noStop bare) (noStop bare') (List.append_cancel_left same)
  exact ⟨bare.alike bare', rest⟩

theorem toList_describeEntry_append (entry : Datum × Datum) (rest : List Char) :
    (describeEntry entry).toList ++ rest =
      shown true entry.1 (' ' :: shown false entry.2 rest) := by
  simp [describeEntry, shown, follows]

theorem follows_inj {isKey : Bool} {rest rest' : List Char}
    (same : follows isKey rest = follows isKey rest') : rest = rest' := by
  cases isKey with
  | true => exact (List.cons.inj same).2
  | false => exact same

/-- A description tells its datum, whatever follows. -/
theorem alike_of_shown {a b : Datum} (plain : a.HasPlainTags) (plain' : b.HasPlainTags)
    {isKey : Bool} {rest rest' : List Char} (same : shown isKey a rest = shown isKey b rest') :
    a.Alike b ∧ rest = rest' := by
  induction a using inside_induction generalizing b isKey rest rest' with
  | null =>
    cases sameForm_of_shown same with
    | null => exact ⟨.null, follows_inj (List.append_cancel_left same)⟩
    | bare bare _ => cases bare
  | boolean _ =>
    cases sameForm_of_shown same with
    | bare bare bare' => exact alike_of_shown_bare bare bare' same
  | integer _ =>
    cases sameForm_of_shown same with
    | bare bare bare' => exact alike_of_shown_bare bare bare' same
  | float _ =>
    cases sameForm_of_shown same with
    | bare bare bare' => exact alike_of_shown_bare bare bare' same
  | string text =>
    cases sameForm_of_shown same with
    | bare bare _ => cases bare
    | string _ other =>
      rw [shown_string, shown_string] at same
      obtain ⟨rfl, tail⟩ := eq_of_shownText_append (List.append_cancel_left same)
      exact ⟨.string text, (List.cons.inj tail).2⟩
  | sequence items ih =>
    cases sameForm_of_shown same with
    | bare bare _ => cases bare
    | sequence _ others =>
      rw [shown_sequence, shown_sequence] at same
      have told : ∀ x ∈ items, ∀ y ∈ others, ∀ s t, shown false x s = shown false y t →
          x.Alike y ∧ s = t := fun x inItems y inOthers s t same =>
        ih x inItems (fun tag has => plain tag (.item inItems has))
          (fun tag has => plain' tag (.item inOthers has)) same
      obtain ⟨pairs, tail⟩ := forall₂_of_listed (by decide) told
        (head?_shown_ne (.inl rfl) false) (List.append_cancel_left same)
      exact ⟨.sequence pairs, follows_inj tail⟩
  | mapping entries keyIh valueIh =>
    cases sameForm_of_shown same with
    | bare bare _ => cases bare
    | mapping _ others =>
      rw [shown_mapping, shown_mapping] at same
      have told : ∀ x ∈ entries, ∀ y ∈ others, ∀ s t,
          (describeEntry x).toList ++ s = (describeEntry y).toList ++ t →
            (x.1.Alike y.1 ∧ x.2.Alike y.2) ∧ s = t := by
        intro x inEntries y inOthers s t same
        rw [toList_describeEntry_append, toList_describeEntry_append] at same
        obtain ⟨keys, tail⟩ := keyIh x.1 (List.mem_map_of_mem inEntries)
          (fun tag has => plain tag (.key (List.mem_map_of_mem inEntries) has))
          (fun tag has => plain' tag (.key (List.mem_map_of_mem inOthers) has)) same
        obtain ⟨values, tail⟩ := valueIh x.2 (List.mem_map_of_mem inEntries)
          (fun tag has => plain tag (.value (List.mem_map_of_mem inEntries) has))
          (fun tag has => plain' tag (.value (List.mem_map_of_mem inOthers) has))
          (List.cons.inj tail).2
        exact ⟨⟨keys, values⟩, tail⟩
      have opens (entry : Datum × Datum) (s : List Char) :
          ((describeEntry entry).toList ++ s).head? ≠ some '}' := by
        rw [toList_describeEntry_append]
        exact head?_shown_ne (.inr rfl) true _ _
      obtain ⟨pairs, tail⟩ :=
        forall₂_of_listed (by decide) told opens (List.append_cancel_left same)
      obtain ⟨keys, values⟩ := forall₂_entries_iff.1 pairs
      exact ⟨.mapping keys values, follows_inj tail⟩
  | tagged tag value ih =>
    cases sameForm_of_shown same with
    | bare bare _ => cases bare
    | tagged _ other _ value' =>
      rw [shown_tagged, shown_tagged] at same
      obtain ⟨tags, tail⟩ := eq_of_append_mark (comma_notMem_bareTag (plain tag .self))
        (comma_notMem_bareTag (plain' other .self)) (List.append_cancel_left same)
      obtain ⟨values, tail⟩ := ih (fun tag has => plain tag (.inner has))
        (fun tag has => plain' tag (.inner has)) (List.append_cancel_left tail)
      exact ⟨.tagged (String.toList_inj.1 tags) values,
        follows_inj (List.cons.inj (List.cons.inj tail).2).2⟩

/-- **Two data have the same description exactly if they are alike.** -/
theorem describe_eq_iff {a b : Datum} (plain : a.HasPlainTags) (plain' : b.HasPlainTags) :
    a.describe false = b.describe false ↔ a.Alike b := by
  constructor
  · intro same
    have texts : shown false a [] = shown false b [] := by rw [shown, same, shown]
    exact (alike_of_shown plain plain' texts).1
  · exact fun alike => alike.describe_eq false

end Datum

end Yaml

end AzurePipelines
