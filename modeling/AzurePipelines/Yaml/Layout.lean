import AzurePipelines.Yaml.Node
import AzurePipelines.Yaml.Style

/-!
# Layout of documents

A document is laid out as lines.  An entry of a mapping is `key:` at the column of its mapping; a
sequence below a key stands at the column of the key, a mapping two columns further; a mapping that
is an entry of a sequence starts on the line of the dash.  A `Layout` carries, beside its lines,
whether the last of them ends a literal block that keeps its line breaks: an empty line after such a
block would become part of its text, so none is put there.
-/

namespace AzurePipelines.Yaml

/-- One line, without its line break. -/
abbrev Line := List Char

/-- The lines of a part of a document. -/
structure Layout where
  lines : List Line
  /-- The last line ends a literal block that keeps the line breaks after it. -/
  keeps : Bool
deriving DecidableEq, Repr

namespace Layout

def empty : Layout := ⟨[], false⟩

def line (text : Line) : Layout := ⟨[text], false⟩

/-- One layout after the other. -/
def append (above below : Layout) : Layout where
  lines := above.lines ++ below.lines
  keeps := if below.lines.isEmpty then above.keeps else below.keeps

instance : Append Layout := ⟨append⟩

/-- An empty line between two parts, unless it would join a literal block.  `above` says of the part
above, if there is one, whether it keeps line breaks. -/
def gap (above : Option Bool) : Layout :=
  if above = some false then line [] else empty

/-- The text of the layout: every line ends in a line break. -/
def text (layout : Layout) : List Char := layout.lines.flatMap (· ++ ['\n'])

end Layout

/-! ## Scalars -/

/-- The spaces up to a column. -/
def margin (column : Nat) : Line := List.replicate column ' '

/-- The lines of a literal block at a column; empty lines stay empty. -/
def LiteralBlock.body (block : LiteralBlock) (column : Nat) : List Line :=
  block.lines.map fun line => if line.isEmpty then [] else margin column ++ line

/-- A scalar after `lead`, the part of its line that stands before it.  The content of a literal
block goes to `column`.  Below a dash a block cannot state its indentation, and the text goes into
double quotes. -/
def scalarLayout (lead : Line) (column : Nat) (belowKey : Bool) (value : Scalar) : Layout :=
  if value.isTyped then .line (lead ++ ' ' :: value.bareText.toList)
  else
    let text := value.text.toList
    if styleOf text = .literal then
      let block := LiteralBlock.ofText text
      if block.statesIndent && !belowKey then .line (lead ++ ' ' :: doubleQuoted text)
      else ⟨(lead ++ ' ' :: block.header) :: block.body column, block.keeps⟩
    else .line (lead ++ ' ' :: inline text)

/-! ## Nodes -/

mutual

/-- The entry `key: node`.  `lead` stands before the key on its line, and `column` is the column of
the key.  With `spaced`, entries of sequences that are mappings have an empty line between them. -/
def entryLayout (spaced : Bool) (lead : Line) (column : Nat) (key : String) : Node → Layout
  | .scalar value => scalarLayout (lead ++ inline key.toList ++ [':']) (column + 2) true value
  | .sequence [] => .line (lead ++ inline key.toList ++ ": []".toList)
  | .mapping [] => .line (lead ++ inline key.toList ++ ": \x7b\x7d".toList)
  | .sequence (item :: items) =>
    .line (lead ++ inline key.toList ++ [':']) ++
      sequenceLayout spaced column none (item :: items)
  | .mapping (entry :: entries) =>
    .line (lead ++ inline key.toList ++ [':']) ++
      mappingLayout spaced (margin (column + 2)) (column + 2) (entry :: entries)

/-- The entries of a mapping at a column; `lead` stands before the first key. -/
def mappingLayout (spaced : Bool) (lead : Line) (column : Nat) : List (String × Node) → Layout
  | [] => .empty
  | (key, node) :: entries =>
    entryLayout spaced lead column key node ++
      mappingLayout spaced (margin column) column entries

/-- The items of a sequence at a column; `above` tells of the item above them, if there is one. -/
def sequenceLayout (spaced : Bool) (column : Nat) (above : Option Bool) : List Node → Layout
  | [] => .empty
  | item :: items =>
    let laid := itemLayout spaced column above item
    laid ++ sequenceLayout spaced column (some laid.keeps) items

/-- One item of a sequence, with the empty line that sets it off from the item above. -/
def itemLayout (spaced : Bool) (column : Nat) (above : Option Bool) : Node → Layout
  | .scalar value => scalarLayout (margin column ++ ['-']) (column + 2) false value
  | .sequence [] => .line (margin column ++ "- []".toList)
  | .mapping [] => .line (margin column ++ "- \x7b\x7d".toList)
  | .sequence (item :: items) =>
    .line (margin column ++ ['-']) ++ sequenceLayout spaced (column + 2) none (item :: items)
  | .mapping (entry :: entries) =>
    (if spaced then .gap above else .empty) ++
      mappingLayout spaced (margin column ++ ['-', ' ']) (column + 2) (entry :: entries)

end

/-! ## Documents -/

/-- The sections of a document, with an empty line between two; `above` tells of the section above
them, if there is one. -/
def sectionsLayout (spaced : Bool) (above : Option Bool) : List (String × Node) → Layout
  | [] => .empty
  | (key, node) :: sections =>
    let laid := Layout.gap above ++ entryLayout spaced [] 0 key node
    laid ++ sectionsLayout spaced (some laid.keeps) sections

/-- The comment lines of a header: `###` before each of its lines, without blanks at the end, and an
empty line below. -/
def headerLines (header : List String) : List Line :=
  if header.isEmpty then []
  else
    (header.flatMap fun text => Text.lines text.toList).map
        (fun line => Text.trimEnd ("### ".toList ++ line)) ++ [[]]

/-- The text of a document below its header. -/
def render (header : List String) (spaced : Bool) (sections : List (String × Node)) : String :=
  String.ofList
    ((headerLines header).flatMap (· ++ ['\n']) ++ (sectionsLayout spaced none sections).text)

end AzurePipelines.Yaml
