import AzurePipelines.Text.Blank
import AzurePipelines.Yaml.Content
import AzurePipelines.Yaml.Cursor
import AzurePipelines.Yaml.Folding

/-!
# Reading documents

`Content.parse` reads a text that holds one document of block and flow collections, plain and quoted
scalars, and comments.  Directives, anchors, tags and block scalars are not read.

In block style the column of the first character decides what belongs to what.  A mapping or
sequence goes on while its next key or dash stands first on its line in the column of the first one,
and what belongs to an entry is indented further; only a sequence may stand in the column of the
mapping whose part it is.  A key and its colon stand on one line, unless a question mark stands
before the key.  Whatever is left when the outermost node has ended is at fault, so no other check
of the indentation is needed.
-/

namespace AzurePipelines.Yaml

/-- What stands at a cursor does not belong there. -/
def Cursor.unexpected (c : Cursor) : ReadFault := .unexpected c.line c.column

/-- Content, and the place after it. -/
abbrev Reading := Except ReadFault (Content × Cursor)

/-! ## Scalars -/

/-- The scalar that starts at a place. -/
def scalarAt (inFlow : Bool) (least : Nat) (c : Cursor) : Reading :=
  let finish (plain : Bool) : Option (List Char × List Char) → Reading
    | some (text, rest) => .ok (.scalar plain (.ofList text), c.upTo rest)
    | none => .error (.malformedScalar c.line c.column)
  match c.rest with
  | [] => .error c.unexpected
  | ch :: rest =>
    if ch == '"' then finish false (readDoubleQuoted {} rest)
    else if ch == '\x27' then finish false (readSingleQuoted {} rest)
    else if startsPlain inFlow ch rest then finish true (readPlain inFlow least 0 {} (ch :: rest))
    else .error c.unexpected

/-! ## Flow style -/

mutual

/-- A node that is a scalar or stands in brackets or braces. -/
def flowNode (inFlow : Bool) (least : Nat) : Nat → Cursor → Reading
  | 0, c => .error c.unexpected
  | fuel + 1, c =>
    if c.isAt '[' then flowItems least [] fuel c.next.skipFlow
    else if c.isAt '\x7b' then flowEntries least [] fuel c.next.skipFlow
    else scalarAt inFlow least c

/-- A node in brackets or braces, together with its value if it is a key: a question mark in front
says so, or a colon that follows on the same line. -/
def flowPair (least : Nat) : Nat → Cursor → Except ReadFault (Content × Option Content × Cursor)
  | 0, c => .error c.unexpected
  | fuel + 1, c => do
    let isKey := c.isAt '?'
    let start := if isKey then c.next.skipFlow else c
    let (key, afterKey) ←
      if isKey && (start.isAt ':' || start.endsPart) then pure (.nothing, start)
      else flowNode true least fuel start
    let colon := afterKey.skipFlow
    if colon.isAt ':' && (isKey || c.sameKey colon) then
      let value := colon.next.skipFlow
      if value.endsPart then return (key, some .nothing, value)
      else
        let (content, afterValue) ← flowNode true least fuel value
        return (key, some content, afterValue.skipFlow)
    else return (key, if isKey then some .nothing else none, colon)

/-- The items up to the closing bracket, after those in `done`.  A pair is a mapping of its own. -/
def flowItems (least : Nat) (done : List Content) : Nat → Cursor → Reading
  | 0, c => .error c.unexpected
  | fuel + 1, c =>
    if c.isAt ']' then .ok (.sequence done.reverse, c.next)
    else do
      let (item, value, after) ← flowPair least fuel c
      let item := match value with
        | some value => .mapping [(item, value)]
        | none => item
      if after.isAt ',' then flowItems least (item :: done) fuel after.next.skipFlow
      else if after.isAt ']' then flowItems least (item :: done) fuel after
      else .error after.unexpected

/-- The entries up to the closing brace, after those in `done`. -/
def flowEntries (least : Nat) (done : List (Content × Content)) : Nat → Cursor → Reading
  | 0, c => .error c.unexpected
  | fuel + 1, c =>
    if c.isAt '\x7d' then .ok (.mapping done.reverse, c.next)
    else do
      let (key, value, after) ← flowPair least fuel c
      let done := (key, value.getD .nothing) :: done
      if after.isAt ',' then flowEntries least done fuel after.next.skipFlow
      else if after.isAt '\x7d' then flowEntries least done fuel after
      else .error after.unexpected

end

/-! ## Block style -/

mutual

/-- A node whose lines are indented by `least` at least; it may be a block mapping or sequence. -/
def blockNode (least : Nat) : Nat → Cursor → Reading
  | 0, c => .error c.unexpected
  | fuel + 1, c =>
    if c.atDash then blockItems c.column [] fuel c
    else if c.atKeyMark then blockEntries c.column [] fuel c
    else do
      let (content, after) ← flowNode false least fuel c
      let colon := after.skipAfter
      if colon.atColon && c.sameKey colon then blockEntries c.column [] fuel c
      else return (content, after)
termination_by structural fuel => fuel

/-- The entries of a mapping in a column, after those in `done`. -/
def blockEntries (column : Nat) (done : List (Content × Content)) : Nat → Cursor → Reading
  | 0, c => .error c.unexpected
  | fuel + 1, c => do
    let (key, value, next) ←
      if c.atKeyMark then blockMarkedEntry column fuel c else blockPlainEntry column fuel c
    let done := (key, value) :: done
    if next.leads && next.column == column && !next.atEnd then blockEntries column done fuel next
    else return (.mapping done.reverse, next)
termination_by structural fuel => fuel

/-- The entry of a mapping in a column whose key and colon stand on one line.  Its value may start
on that line as well, if it is no block mapping or sequence. -/
def blockPlainEntry (column : Nat) : Nat → Cursor → Except ReadFault (Content × Content × Cursor)
  | 0, c => .error c.unexpected
  | fuel + 1, c => do
    let (key, afterKey) ← flowNode false (column + 1) fuel c
    let colon := afterKey.skipAfter
    if colon.atColon && c.sameKey colon then
      let start := colon.next.skip true
      let (value, afterValue) ←
        if start.line == colon.line && !start.atEnd then flowNode false (column + 1) fuel start
        else blockPart column fuel start
      return (key, value, afterValue.skipAfter)
    else .error colon.unexpected
termination_by structural fuel => fuel

/-- The entry of a mapping in a column whose key stands after a question mark, and its value after a
colon in the same column. -/
def blockMarkedEntry (column : Nat) : Nat → Cursor → Except ReadFault (Content × Content × Cursor)
  | 0, c => .error c.unexpected
  | fuel + 1, c => do
    let (key, afterKey) ← blockPart column fuel (c.next.skip false)
    let colon := afterKey.skipAfter
    if colon.leads && colon.column == column && colon.atColon then
      let (value, afterValue) ← blockPart column fuel (colon.next.skip false)
      return (key, value, afterValue.skipAfter)
    else return (key, .nothing, colon)
termination_by structural fuel => fuel

/-- The key or value of an entry of a mapping in a column, which may be a block mapping or
sequence. -/
def blockPart (column : Nat) : Nat → Cursor → Reading
  | 0, c => .error c.unexpected
  | fuel + 1, c =>
    if c.atEnd then .ok (.nothing, c)
    else if column < c.column then blockNode (column + 1) fuel c
    else if c.column == column && c.atDash then blockItems column [] fuel c
    else .ok (.nothing, c)
termination_by structural fuel => fuel

/-- The items of a sequence in a column, after those in `done`. -/
def blockItems (column : Nat) (done : List Content) : Nat → Cursor → Reading
  | 0, c => .error c.unexpected
  | fuel + 1, c => do
    let inner := c.next.skip false
    let (item, afterItem) ←
      if inner.atEnd || inner.column ≤ column then pure (.nothing, inner)
      else blockNode (column + 1) fuel inner
    let next := afterItem.skipAfter
    if next.leads && next.column == column && next.atDash then
      blockItems column (item :: done) fuel next
    else return (.sequence (item :: done).reverse, next)
termination_by structural fuel => fuel

end

/-! ## Documents -/

/-- The only node of a document.  After a mark in front, it starts on the line of the mark and is no
block mapping or sequence there. -/
def rootNode (marked : Bool) (text : List Char) : Except ReadFault Content := do
  let fuel := 5 * text.length + 10
  let c := (Cursor.start text).skip marked
  if c.atEnd then return .nothing
  let (content, after) ←
    if marked && c.line == 0 then flowNode false 0 fuel c else blockNode 0 fuel c
  let left := after.skipAfter
  if left.atEnd then return content else throw left.unexpected

/-- Nothing is written but blanks and comments. -/
def isVacant (tabs : Bool) (text : List Char) : Bool := ((Cursor.start text).skip tabs).atEnd

/-- The line says nothing after the end of a document. -/
def isTrailing (line : List Char) : Bool :=
  if isMarker '.' line then isVacant true (line.drop 3)
  else !isMarker '-' line && isVacant false line

/-- A character that may not stand in a document. -/
def isForbidden (c : Char) : Bool :=
  (Text.isControl c && c != '\t' && c != '\n' && c != '\r' && c != '\x85') ||
    c == '\ufffe' || c == '\uffff'

/-- The content of a text that holds one document, or none at all. -/
def Content.parse (text : String) : Except ReadFault Content := do
  if let some c := text.toList.find? isForbidden then throw (.forbiddenCharacter c)
  let isEdge (line : List Char) : Bool := isMarker '-' line || isMarker '.' line
  let (before, rest) := (linesOf (withLineFeeds text.toList)).span (!isEdge ·)
  match rest with
  | [] => rootNode false before.flatten
  | edge :: below =>
    if isVacant false before.flatten then
      if isMarker '.' edge then throw (.unexpected before.length 0)
      let (body, trailing) := below.span (!isEdge ·)
      let content ← rootNode true (List.replicate 3 ' ' ++ edge.drop 3 ++ body.flatten)
      if trailing.all isTrailing then return content else throw .severalDocuments
    else
      let content ← rootNode false before.flatten
      if rest.all isTrailing then return content else throw .severalDocuments

end AzurePipelines.Yaml
