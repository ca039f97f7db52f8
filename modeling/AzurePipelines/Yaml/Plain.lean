import AzurePipelines.Decimal.Literal
import AzurePipelines.Text.Blank
import AzurePipelines.Text.Pieces

/-!
# What may be written plain

A text on one line may stand in a document without quotes if a reader takes it back as the same
text.  `needsQuotes` finds the texts for which that is in doubt: those whose characters mean
something to the grammar of documents, the words for booleans and null, and all that looks like a
number (`looksNumeric`), in the old reading in which `yes`, `0o17` and `1:20` are not text.
-/

namespace AzurePipelines.Yaml

/-! ## Numbers -/

/-- Digits in groups between colons, the last of which may be any floating-point literal: a number
in base sixty. -/
def looksSexagesimal (text : List Char) : Bool :=
  let groups := Text.pieces ':' text
  1 < groups.length &&
    groups.dropLast.all (fun group => !group.isEmpty && group.all Char.isDigit) &&
    (groups.getLast?.map Decimal.isLiteral).getD false

/-- A digit in base sixteen, in lower case. -/
def isHexDigit (c : Char) : Bool := c.isDigit || ('a' ≤ c && c ≤ 'f')

/-- The text after `0x`, `0o` or `0b`. -/
def afterRadix? : List Char → Option (List Char)
  | '0' :: radix :: digits =>
    if radix == 'x' || radix == 'o' || radix == 'b' then some digits else none
  | _ => none

/-- The text, in lower case, looks like a number.  Signs in front and underscores anywhere do not
count, and after a mark of any radix the digits of base sixteen are taken. -/
def looksNumeric (text : List Char) : Bool :=
  let unsigned := text.dropWhile fun c => c == '+' || c == '-'
  let compact := unsigned.filter (· != '_')
  unsigned == ".inf".toList || unsigned == ".nan".toList ||
    match afterRadix? compact with
    | some digits => !digits.isEmpty && digits.all isHexDigit
    | none => if compact.contains ':' then looksSexagesimal compact else Decimal.isLiteral compact

/-! ## Indicators and words -/

/-- The characters that mean something to the grammar of documents at the start of a text. -/
def isIndicator (c : Char) : Bool :=
  ['-', '?', ':', ',', '[', ']', '{', '}', '#', '&', '*', '!', '|', '>', '\x27', '"', '%', '@',
    '\x60'].contains c

/-- The words that stand for booleans and for null, in lower case. -/
def reservedWords : List (List Char) :=
  ["true".toList, "false".toList, "yes".toList, "no".toList, "on".toList, "off".toList,
    "y".toList, "n".toList, "null".toList, "~".toList]

/-- A space or a tab. -/
def isSpaceOrTab (c : Char) : Bool := c == ' ' || c == '\t'

/-- A colon before a space or tab, or a number sign after one: these end a plain text. -/
def hasSeparator : List Char → Bool
  | c :: next :: rest =>
    (c == ':' && isSpaceOrTab next) || (isSpaceOrTab c && next == '#') ||
      hasSeparator (next :: rest)
  | _ => false

/-- The text, on one line and printable, must be quoted. -/
def needsQuotes : List Char → Bool
  | [] => true
  | first :: rest =>
    let last := (first :: rest).getLast (List.cons_ne_nil _ _)
    let lower := (first :: rest).map Char.toLower
    Text.isBlank first || Text.isBlank last || isIndicator first ||
      hasSeparator (first :: rest) || last == ':' || reservedWords.contains lower ||
      looksNumeric lower

example : (["main", "6.0.100", "$(Name)", "a:b", "C#", "1.2.3", "2024-01-01"].map
    (needsQuotes ·.toList)).any id = false := by decide
example : (["", " a", "- a", "a: b", "a #b", "end:", "No", "~", "1_000", "1:20", "0o9", "+.INF"].map
    (needsQuotes ·.toList)).all id = true := by decide

end AzurePipelines.Yaml
