import AzurePipelines.Text.Quoted
import AzurePipelines.Yaml.Plain

/-!
# Scalar styles

How the text of a scalar is written.  Printable text on one line is plain or in single quotes; text
of several lines is a literal block unless its first lines would confuse a reader about its
indentation; all other text is in double quotes, in which every character that may not stand in a
document is escaped.
-/

namespace AzurePipelines.Yaml

/-- The four ways to write a text. -/
inductive Style where
  | plain
  | singleQuoted
  | doubleQuoted
  | literal
deriving DecidableEq, Repr

/-! ## Choice of style -/

/-- A control character other than a line feed or tab, or one of the three characters that a reader
takes for a mark of the encoding or a line break. -/
def isUnprintable (c : Char) : Bool :=
  (Text.isControl c && c != '\n' && c != '\t') ||
    c == '\ufeff' || c == '\u2028' || c == '\u2029'

/-- The first line that is not blank comes after empty lines only. -/
def startsCleanly : List (List Char) → Bool
  | [] => false
  | line :: rest =>
    if Text.allBlank line then line.isEmpty && startsCleanly rest else true

/-- The style in which a text is written. -/
def styleOf (text : List Char) : Style :=
  if text.any isUnprintable then .doubleQuoted
  else if text.contains '\n' then
    if startsCleanly (Text.lines text) then .literal else .doubleQuoted
  else if needsQuotes text then .singleQuoted
  else .plain

/-! ## Text on one line -/

/-- A digit in base sixteen, in upper case. -/
def upperHexDigit (n : Nat) : Char := (Nat.digitChar n).toUpper

/-- The last four digits in base sixteen. -/
def fourHexDigits (n : Nat) : List Char :=
  [n / 4096 % 16, n / 256 % 16, n / 16 % 16, n % 16].map upperHexDigit

/-- A character as it stands between double quotes. -/
def escaped (c : Char) : List Char :=
  if c == '\\' then ['\\', '\\']
  else if c == '"' then ['\\', '"']
  else if c == '\n' then ['\\', 'n']
  else if c == '\r' then ['\\', 'r']
  else if c == '\t' then ['\\', 't']
  else if c == '\x00' then ['\\', '0']
  else if isUnprintable c then '\\' :: 'u' :: fourHexDigits c.toNat
  else [c]

/-- The text in double quotes. -/
def doubleQuoted (text : List Char) : List Char := '"' :: text.flatMap escaped ++ ['"']

/-- The text on one line, as a key is written: what would be a literal block is put in double
quotes. -/
def inline (text : List Char) : List Char :=
  match styleOf text with
  | .plain => text
  | .singleQuoted => Text.quoted text
  | .doubleQuoted | .literal => doubleQuoted text

/-! ## Literal blocks -/

/-- The lines of a literal block before they are indented. -/
structure LiteralBlock where
  lines : List (List Char)
  /-- The text ends in a line break, and all line breaks at its end are kept. -/
  keeps : Bool
  /-- The first line that is not empty starts with a space or tab, so that the block has to state
  its indentation. -/
  statesIndent : Bool
deriving DecidableEq, Repr

/-- The block that a text is written as: the break at its end is the end of its last line. -/
def LiteralBlock.ofText (text : List Char) : LiteralBlock :=
  let keeps := text.getLast? == some '\n'
  let lines := Text.lines (if keeps then text.dropLast else text)
  { lines
    keeps
    statesIndent := ((lines.find? (!·.isEmpty)).bind List.head?).any isSpaceOrTab }

/-- The indicators on the line above the block. -/
def LiteralBlock.header (block : LiteralBlock) : List Char :=
  '|' :: (if block.statesIndent then ['2'] else []) ++ [if block.keeps then '+' else '-']

example : styleOf "main".toList = .plain := by decide
example : styleOf "\n\n".toList = .doubleQuoted := by decide
example : styleOf "  \nx".toList = .doubleQuoted := by decide
example : inline "bell\x07".toList = "\"bell\\u0007\"".toList := by decide
example : inline "'quoted'".toList = "'''quoted'''".toList := by decide
example : (LiteralBlock.ofText "\n  a\nb".toList).header = "|2-".toList := by decide
example : LiteralBlock.ofText "a\n\n".toList = ⟨["a".toList, []], true, false⟩ := by decide

end AzurePipelines.Yaml
