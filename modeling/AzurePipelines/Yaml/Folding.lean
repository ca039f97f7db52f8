import AzurePipelines.Yaml.Lines

/-!
# Scalars over several lines

The text of a scalar is read from the characters of a document.  Within quotes, and within a plain
scalar, the blanks around a line break do not count: a line feed alone reads as a space, and all
other line breaks as themselves (`Gap`).  The readers of the three kinds of scalars return the text
and what follows it, and refuse what cannot be a scalar.
-/

namespace AzurePipelines.Yaml

/-! ## Gaps -/

/-- What stands between two characters of a scalar that are not blank. -/
structure Gap where
  /-- What it reads as. -/
  text : List Char := []
  /-- It has a line break. -/
  broken : Bool := false
deriving DecidableEq, Repr

namespace Gap

/-- One more blank counts only before any line break. -/
def blank (gap : Gap) (c : Char) : Gap :=
  if gap.broken then gap else { gap with text := gap.text ++ [c] }

/-- A line feed reads as a space if it is the first break, and the second break replaces it.  Every
other line break stays as it is. -/
def lineBreak (gap : Gap) (c : Char) : Gap where
  text :=
    if !gap.broken then (if c == '\n' then [' '] else [c])
    else if gap.text == [' '] then [c]
    else gap.text ++ [c]
  broken := true

/-- A line break that does not count itself. -/
def escapedBreak : Gap := ⟨[], true⟩

end Gap

/-- The text that was read, after more of it, and what follows. -/
def prepend (before : List Char) (read : Option (List Char × List Char)) :
    Option (List Char × List Char) :=
  read.map fun (text, rest) => (before ++ text, rest)

/-! ## Quotes -/

/-- The text up to the closing single quote. -/
def readSingleQuoted (gap : Gap) : List Char → Option (List Char × List Char)
  | [] => none
  | '\x27' :: '\x27' :: rest => prepend (gap.text ++ ['\x27']) (readSingleQuoted {} rest)
  | c :: rest =>
    if c == '\x27' then some (gap.text, rest)
    else if isBreak c then readSingleQuoted (gap.lineBreak c) rest
    else if isSpaceOrTab c then readSingleQuoted (gap.blank c) rest
    else prepend (gap.text ++ [c]) (readSingleQuoted {} rest)

/-- The value of a digit in base sixteen. -/
def hexDigit? (c : Char) : Option Nat :=
  if c.isDigit then some (c.toNat - '0'.toNat)
  else if 'a' ≤ c && c ≤ 'f' then some (c.toNat - 'a'.toNat + 10)
  else if 'A' ≤ c && c ≤ 'F' then some (c.toNat - 'A'.toNat + 10)
  else none

/-- The character whose code has these digits in base sixteen. -/
def charOfHex? (digits : List Char) : Option Char := do
  let code ← digits.foldlM (fun code c => (hexDigit? c).map (16 * code + ·)) 0
  if code.isValidChar then some (.ofNat code) else none

/-- The character that a letter stands for after a backslash. -/
def unescaped? : Char → Option Char
  | '0' => some '\x00'
  | 'a' => some '\x07'
  | 'b' => some '\x08'
  | 't' => some '\t'
  | '\t' => some '\t'
  | 'n' => some '\n'
  | 'v' => some '\x0b'
  | 'f' => some '\x0c'
  | 'r' => some '\r'
  | 'e' => some '\x1b'
  | ' ' => some ' '
  | '"' => some '"'
  | '/' => some '/'
  | '\\' => some '\\'
  | 'N' => some '\x85'
  | '_' => some '\xa0'
  | 'L' => some '\u2028'
  | 'P' => some '\u2029'
  | _ => none

/-- The text up to the closing double quote. -/
def readDoubleQuoted (gap : Gap) : List Char → Option (List Char × List Char)
  | [] => none
  | '\\' :: 'x' :: a :: b :: rest => do
    prepend (gap.text ++ [← charOfHex? [a, b]]) (readDoubleQuoted {} rest)
  | '\\' :: 'u' :: a :: b :: c :: d :: rest => do
    prepend (gap.text ++ [← charOfHex? [a, b, c, d]]) (readDoubleQuoted {} rest)
  | '\\' :: 'U' :: a :: b :: c :: d :: e :: f :: g :: h :: rest => do
    prepend (gap.text ++ [← charOfHex? [a, b, c, d, e, f, g, h]]) (readDoubleQuoted {} rest)
  | '\\' :: c :: rest => do
    if isBreak c then prepend gap.text (readDoubleQuoted .escapedBreak rest)
    else prepend (gap.text ++ [← unescaped? c]) (readDoubleQuoted {} rest)
  | c :: rest =>
    if c == '"' then some (gap.text, rest)
    else if isBreak c then readDoubleQuoted (gap.lineBreak c) rest
    else if isSpaceOrTab c then readDoubleQuoted (gap.blank c) rest
    else prepend (gap.text ++ [c]) (readDoubleQuoted {} rest)

/-! ## Plain scalars -/

/-- A character that ends a plain scalar within brackets or braces. -/
def isFlowIndicator (c : Char) : Bool := ",[]\x7b\x7d".toList.contains c

/-- A plain scalar may start with this character before `rest`.  Three indicators may start one
before a character that is not blank, two of them only outside of brackets and braces. -/
def startsPlain (inFlow : Bool) (c : Char) (rest : List Char) : Bool :=
  if c == '-' then !blankNext rest
  else if c == '?' || c == ':' then !inFlow && !blankNext rest
  else !(isSpaceOrTab c || isBreak c || isIndicator c)

/-- The text of a plain scalar: up to a colon before a blank, a comment, a character that has a
meaning in brackets and braces, or a line that is indented less than `least`.  `column` is where
the characters stand, and counts only after a line break.  A tab may not indent a line, and within
brackets and braces a colon may not stand before a character that has a meaning there. -/
def readPlain (inFlow : Bool) (least : Nat) (column : Nat) (gap : Gap) :
    List Char → Option (List Char × List Char)
  | [] => some ([], [])
  | c :: rest =>
    if isBreak c then readPlain inFlow least 0 (gap.lineBreak c) rest
    else if isSpaceOrTab c then
      if c == '\t' && gap.broken && column < least then none
      else readPlain inFlow least (column + 1) (gap.blank c) rest
    else if (c == '#' && gap != {}) || (gap.broken && !inFlow && column < least) ||
        (c == ':' && blankNext rest) || (inFlow && isFlowIndicator c) then
      some ([], c :: rest)
    else if inFlow && c == ':' && rest.head?.any (fun next => isFlowIndicator next || next == '?')
    then none
    else prepend (gap.text ++ [c]) (readPlain inFlow least (column + 1) {} rest)

example : readSingleQuoted {} "it''s' #".toList = some ("it's".toList, " #".toList) := by decide
example : readSingleQuoted {} "a \n\n b'".toList = some ("a\nb".toList, []) := by decide
example : readSingleQuoted {} "a \u2028 b'".toList = some ("a\u2028b".toList, []) := by decide
example : readDoubleQuoted {} "a\\x41 \\\n  b\"".toList = some ("aA b".toList, []) := by decide
example : readDoubleQuoted {} "\\q\"".toList = none := by decide
example : readPlain false 1 0 {} "a b #c".toList = some ("a b".toList, "#c".toList) := by decide
example : readPlain false 1 0 {} "a\n b\nc".toList = some ("a b".toList, "c".toList) := by decide
example : readPlain true 0 0 {} "a, b".toList = some ("a".toList, ", b".toList) := by decide

end AzurePipelines.Yaml
