import AzurePipelines.Yaml.Content
import AzurePipelines.Yaml.Folding
import AzurePipelines.Yaml.Layout

/-!
# Reading documents in block style

`readBlocks` reads the text of a document by the block rules of YAML, line by line, and knows
nothing of how the text was laid out.

A line is read as `Mark`s: the dashes and the key that stand on it, each with its column, and a
value, if one ends the line.  The header of a literal block opens the block instead, and the lines
of the block below are taken as its text (`BlockHeader.read`).  Empty lines say nothing outside of
literal blocks.

What belongs to what is decided by columns alone.  A key takes as its value the sequence at its own
column or the mapping two columns further, and a dash what stands two columns further; entries at
one column that follow each other are one collection (`Part.before`).  A mark at the wrong column
leaves the document unread.
-/

namespace AzurePipelines.Yaml

/-! ## Values on one line -/

/-- The scalar that the characters start with, and what follows it on the line. -/
def lineScalar : List Char → Option (Content × List Char)
  | [] => none
  | c :: rest =>
    if c == '"' then
      (readDoubleQuoted {} rest).map fun read => (.scalar false (.ofList read.1), read.2)
    else if c == '\x27' then
      (readSingleQuoted {} rest).map fun read => (.scalar false (.ofList read.1), read.2)
    else if startsPlain false c rest then
      (readPlain false 0 0 {} (c :: rest)).map fun read => (.scalar true (.ofList read.1), read.2)
    else none

/-- The key that the characters start with, and what follows its colon. -/
def lineKey? (chars : List Char) : Option (Content × List Char) :=
  match lineScalar chars with
  | some (key, ':' :: rest) =>
    if blankNext rest then some (key, rest.dropWhile isSpaceOrTab) else none
  | _ => none

/-! ## Marks -/

/-- A part of a line. -/
inductive Mark where
  /-- The dash of an entry of a sequence. -/
  | dash (column : Nat)
  /-- The key of an entry of a mapping, with its colon. -/
  | key (column : Nat) (name : Content)
  /-- A value that holds no entries. -/
  | value (content : Content)

/-- What opens a literal block. -/
structure BlockHeader where
  /-- The column of the dash or key whose value the block is. -/
  parent : Nat
  /-- The block stands two columns to the right of its parent; otherwise its first line that is not
  empty tells where it stands. -/
  statesIndent : Bool
  /-- The line breaks at the end of the block belong to its text. -/
  keeps : Bool
deriving DecidableEq, Repr

/-- The marks of a line, and the literal block that is opened at its end. -/
structure LineMarks where
  marks : List Mark
  opened : Option BlockHeader

/-- The marks of a line after one more mark in front. -/
def LineMarks.after (mark : Mark) (line : LineMarks) : LineMarks :=
  { line with marks := mark :: line.marks }

/-- The block that the indicators after a vertical bar open below `parent`. -/
def blockHeader? (parent : Nat) : List Char → Option BlockHeader
  | ['+'] => some ⟨parent, false, true⟩
  | ['-'] => some ⟨parent, false, false⟩
  | ['2', '+'] => some ⟨parent, true, true⟩
  | ['2', '-'] => some ⟨parent, true, false⟩
  | _ => none

/-- The value that takes the line to its end, below the dash or key at `parent`. -/
def lineValue (parent : Nat) : List Char → Option LineMarks
  | [] => some ⟨[], none⟩
  | ['[', ']'] => some ⟨[.value (.sequence [])], none⟩
  | ['\x7b', '\x7d'] => some ⟨[.value (.mapping [])], none⟩
  | '|' :: indicators => (blockHeader? parent indicators).map fun header => ⟨[], some header⟩
  | chars =>
    match lineScalar chars with
    | some (content, []) => some ⟨[.value content], none⟩
    | _ => none

/-- The marks of a line from `column` on.  A value needs a key or a dash before it, and `dash` is
the last dash so far. -/
def lineMarks (dash : Option Nat) (column : Nat) : List Char → Option LineMarks
  | [] => some ⟨[], none⟩
  | c :: rest =>
    if c == ' ' then lineMarks dash (column + 1) rest
    else if c == '-' && blankNext rest then
      (lineMarks (some column) (column + 1) rest).map (.after (.dash column))
    else match lineKey? (c :: rest) with
      | some (name, value) => (lineValue column value).map (.after (.key column name))
      | none => dash.bind fun parent => lineValue parent (c :: rest)

/-! ## Literal blocks -/

/-- The line holds nothing but spaces. -/
def isVacantLine (line : Line) : Bool := line.all (· == ' ')

/-- The number of spaces that a line starts with. -/
def indentation (line : Line) : Nat := (line.takeWhile (· == ' ')).length

/-- The line goes on with a block whose text stands at a column. -/
def continuesBlock (column : Nat) (line : Line) : Bool :=
  isVacantLine line || decide (column ≤ indentation line)

namespace BlockHeader

/-- The column of the text of the block, of which `below` are the lines and all that follow. -/
def column (header : BlockHeader) (below : List Line) : Nat :=
  if header.statesIndent then header.parent + 2
  else max (header.parent + 1) (((below.find? (!isVacantLine ·)).map indentation).getD 0)

/-- The text of the lines of a block.  Where they are not kept, the line breaks at its end are
dropped. -/
def textOf (header : BlockHeader) (lines : List Line) : List Char :=
  if header.keeps then lines.flatMap (· ++ ['\n'])
  else ['\n'].intercalate (lines.reverse.dropWhile List.isEmpty).reverse

/-- The text of the block, and the lines that follow it. -/
def read (header : BlockHeader) (below : List Line) : List Char × List Line :=
  let column := header.column below
  (header.textOf ((below.takeWhile (continuesBlock column)).map (·.drop column)),
    below.dropWhile (continuesBlock column))

theorem length_read_le (header : BlockHeader) (below : List Line) :
    (header.read below).2.length ≤ below.length :=
  (List.dropWhile_sublist _).length_le

end BlockHeader

/-- The marks of all lines. -/
def marksOf : List Line → Option (List Mark)
  | [] => some []
  | line :: below =>
    if isVacantLine line then marksOf below
    else match lineMarks none 0 line with
      | none => none
      | some ⟨marks, none⟩ => (marksOf below).map (marks ++ ·)
      | some ⟨marks, some header⟩ =>
        (marksOf (header.read below).2).map
          (marks ++ .value (.scalar false (.ofList (header.read below).1)) :: ·)
termination_by lines => lines.length
decreasing_by
  all_goals simp only [List.length_cons]
  · omega
  · omega
  · exact Nat.lt_succ_of_le (header.length_read_le below)

/-! ## Parts of documents -/

/-- A value, or the entries of a collection at a column. -/
inductive Part where
  | value (content : Content)
  | items (column : Nat) (items : List Content)
  | entries (column : Nat) (entries : List (Content × Content))

namespace Part

/-- One more item in front of the parts: of the sequence at its column, if they start with it. -/
def consItem (column : Nat) (item : Content) : List Part → List Part
  | .items c others :: parts =>
    if c = column then .items column (item :: others) :: parts
    else .items column [item] :: .items c others :: parts
  | parts => .items column [item] :: parts

/-- One more entry in front of the parts: of the mapping at its column, if they start with it. -/
def consEntry (column : Nat) (entry : Content × Content) : List Part → List Part
  | .entries c others :: parts =>
    if c = column then .entries column (entry :: others) :: parts
    else .entries column [entry] :: .entries c others :: parts
  | parts => .entries column [entry] :: parts

/-- The first of the parts as a value, which has to be a sequence at the one column or a mapping at
the other if it is a collection. -/
def firstValue? (itemColumn entryColumn : Nat) : List Part → Option (Content × List Part)
  | .value content :: parts => some (content, parts)
  | .items c contents :: parts => if c = itemColumn then some (.sequence contents, parts) else none
  | .entries c contents :: parts =>
    if c = entryColumn then some (.mapping contents, parts) else none
  | [] => none

/-- The parts with one more mark before them. -/
def before (mark : Mark) (parts : List Part) : Option (List Part) :=
  match mark with
  | .value content => some (.value content :: parts)
  | .dash column =>
    (firstValue? (column + 2) (column + 2) parts).map fun first =>
      consItem column first.1 first.2
  | .key column name =>
    (firstValue? column (column + 2) parts).map fun first =>
      consEntry column (name, first.1) first.2

end Part

/-! ## Documents -/

/-- The lines of a text, without their line breaks. -/
def linesRead (text : List Char) : List Line :=
  (linesOf (withLineFeeds text)).map (·.takeWhile (!isBreak ·))

/-- The entries of the mapping that a text holds. -/
def readBlocks (text : String) : Option (List (Content × Content)) := do
  let marks ← marksOf (linesRead text.toList)
  match ← marks.foldrM Part.before [] with
  | [] => some []
  | [.entries 0 entries] => some entries
  | _ => none

end AzurePipelines.Yaml
