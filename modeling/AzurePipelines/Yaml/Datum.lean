import AzurePipelines.Decimal.Positional
import AzurePipelines.Text.Visible
import AzurePipelines.Value

/-!
# Data of documents

A `Datum` is what a document says once its scalars are resolved.  Unlike a `Value` it has a null and
tags, and any datum may be the key of a mapping.  `Datum.toValue` turns it into a value: null
becomes the empty text, a tag is dropped, and texts, booleans and numbers become the texts of keys;
a mapping with any other key is refused.
-/

namespace AzurePipelines.Yaml

/-- A resolved node of a document. -/
inductive Datum where
  | null
  | boolean (b : Bool)
  | integer (n : Int)
  | float (x : Binary64)
  | string (text : String)
  | sequence (items : List Datum)
  | mapping (entries : List (Datum × Datum))
  | tagged (tag : String) (value : Datum)

namespace Datum

/-! ## Equality of keys -/

/-- Equality of floating-point keys: there is one zero, and one value that is not a number. -/
def sameFloat (x y : Binary64) : Bool :=
  x == y || (x.isZero && y.isZero) || (x.isNaN && y.isNaN)

/-- A tag without the mark in front; the mark alone is a tag of its own. -/
def bareTag (tag : String) : String :=
  match tag.toList with
  | '!' :: c :: rest => String.ofList (c :: rest)
  | _ => tag

mutual

/-- Two data are the same as keys of a mapping.  The order of the entries of a mapping does not
count. -/
def same : Datum → Datum → Bool
  | .null, .null => true
  | .boolean a, .boolean b => a == b
  | .integer a, .integer b => a == b
  | .float x, .float y => sameFloat x y
  | .string s, .string t => s == t
  | .sequence as, .sequence bs => sameItems as bs
  | .mapping as, .mapping bs => as.length == bs.length && allAmong as bs
  | .tagged s a, .tagged t b => bareTag s == bareTag t && same a b
  | _, _ => false

def sameItems : List Datum → List Datum → Bool
  | [], [] => true
  | a :: as, b :: bs => same a b && sameItems as bs
  | _, _ => false

/-- Every entry of the first list occurs in the second. -/
def allAmong : List (Datum × Datum) → List (Datum × Datum) → Bool
  | [], _ => true
  | (key, value) :: rest, others =>
    others.any (fun other => same key other.1 && same value other.2) && allAmong rest others

end

/-- The entries of a mapping with one more: in place of the value of the same key, else at the
end. -/
def setEntry (key value : Datum) : List (Datum × Datum) → List (Datum × Datum)
  | [] => [(key, value)]
  | entry :: rest =>
    if entry.1.same key then (entry.1, value) :: rest else entry :: setEntry key value rest

/-- The mapping after all entries have been set, from the first to the last. -/
def mappingOfList (entries : List (Datum × Datum)) : Datum :=
  .mapping (entries.foldl (fun done entry => setEntry entry.1 entry.2 done) [])

/-! ## Texts of numbers and keys -/

/-- A finite number with the fewest digits that read back, of two equally near decimals the even
one: positional with at least one place after the point while the point stands among the first
sixteen digits or at most four zeros follow it, and with an exponent otherwise. -/
def finiteText (x : Binary64) : List Char :=
  let d := x.shortest .even
  let digits := Nat.toDigits 10 d.digits
  let point := (digits.length : Int) + d.exponent
  if x.isZero then "0.0".toList
  else if 0 ≤ d.exponent ∧ point ≤ 16 then d.positional ++ ".0".toList
  else if -5 < point ∧ point ≤ 16 then d.positional
  else d.scientific

/-- A floating-point number in a document. -/
def floatText (x : Binary64) : List Char :=
  if x.isNaN then ".nan".toList
  else if x.isFinite then x.withSign (finiteText x)
  else x.withSign ".inf".toList

/-- The text that a datum becomes as a key, if it may be one. -/
def keyText? : Datum → Option String
  | .string text => some text
  | .boolean b => some (if b then "true" else "false")
  | .integer n => some (toString n)
  | .float x => some (String.ofList (floatText x))
  | .null | .sequence _ | .mapping _ | .tagged _ _ => none

/-! ## Descriptions -/

/-- A character as it is shown between double quotes in a description. -/
def shownChar (c : Char) : List Char :=
  if c == '\x00' then ['\\', '0']
  else if c == '\t' then ['\\', 't']
  else if c == '\r' then ['\\', 'r']
  else if c == '\n' then ['\\', 'n']
  else if c == '\\' || c == '"' then ['\\', c]
  else if Text.isVisible c then [c]
  else ['\\', 'u', '{'] ++ Nat.toDigits 16 c.toNat ++ ['}']

/-- A text between double quotes in a description. -/
def shownText (text : String) : String :=
  "\"" ++ String.ofList (text.toList.flatMap shownChar) ++ "\""

/-- A text with the name of its kind, unless it is a key. -/
def ofKind (isKey : Bool) (kind text : String) : String :=
  if isKey then text else kind ++ "(" ++ text ++ ")"

mutual

/-- The datum with the names of its kinds; as a key, what has a text is shown without its kind. -/
def describe (isKey : Bool) : Datum → String
  | .null => "Null"
  | .boolean b => ofKind isKey "Bool" (if b then "true" else "false")
  | .integer n => ofKind isKey "Number" (toString n)
  | .float x => ofKind isKey "Number" (String.ofList (floatText x))
  | .string text => ofKind isKey "String" (shownText text)
  | .sequence items => "Sequence [" ++ ", ".intercalate (describeItems items) ++ "]"
  | .mapping entries => "Mapping \x7b" ++ ", ".intercalate (describeEntries entries) ++ "\x7d"
  | .tagged tag value =>
    "TaggedValue \x7b tag: !" ++ bareTag tag ++ ", value: " ++ value.describe false ++ " \x7d"

def describeItems : List Datum → List String
  | [] => []
  | item :: rest => item.describe false :: describeItems rest

def describeEntries : List (Datum × Datum) → List String
  | [] => []
  | (key, value) :: rest =>
    (key.describe true ++ ": " ++ value.describe false) :: describeEntries rest

end

/-! ## Values -/

/-- A key that has no text. -/
structure UnsupportedKey where
  key : Datum

/-- Where the error is reported: the converted value as a whole. -/
def UnsupportedKey.path : String := "value"

def UnsupportedKey.message (e : UnsupportedKey) : String :=
  "schema violation at '" ++ UnsupportedKey.path ++ "': unsupported mapping key: " ++
    e.key.describe false

/-- An integer of 64 bits with its sign; only these are integers as values. -/
def fits (n : Int) : Bool := -9223372036854775808 ≤ n && n ≤ 9223372036854775807

mutual

/-- The value of a datum.  Of several keys without a text the first is reported, where a key comes
before what stands below it. -/
def toValue : Datum → Except UnsupportedKey Value
  | .null => .ok (.text "")
  | .boolean b => .ok (.scalar (.boolean b))
  | .integer n => .ok (.scalar (if fits n then .integer n else .float (.ofInt n)))
  | .float x => .ok (.scalar (.float x))
  | .string text => .ok (.text text)
  | .sequence items => (toValues items).map .sequence
  | .mapping entries => (addEntries .empty entries).map .mapping
  | .tagged _ value => value.toValue

def toValues : List Datum → Except UnsupportedKey (List Value)
  | [] => .ok []
  | item :: rest => do return (← item.toValue) :: (← toValues rest)

/-- The map with the entries inserted under the texts of their keys. -/
def addEntries (done : OrderedMap Value) :
    List (Datum × Datum) → Except UnsupportedKey (OrderedMap Value)
  | [] => .ok done
  | (key, value) :: rest =>
    match key.keyText? with
    | none => .error ⟨key⟩
    | some text => do addEntries (done.insert text (← value.toValue)) rest

end

end Datum

end AzurePipelines.Yaml
