import AzurePipelines.Yaml.Lines

/-!
# Cursors

A cursor is a place in a document together with what is written from there on.  A reader looks at
what stands at its cursor, moves past it, and skips to the next place where something is written.
Between two such places there are only blanks, line breaks and comments, and at the start of a line
a byte order mark.
-/

namespace AzurePipelines.Yaml

/-! ## Places -/

/-- A place in a document. -/
structure Place where
  /-- How many bytes stand before it. -/
  offset : Nat := 0
  line : Nat := 0
  column : Nat := 0
  /-- Nothing but spaces stands before it on its line. -/
  leads : Bool := true
deriving DecidableEq, Repr

namespace Place

/-- The place after a character. -/
def after (place : Place) (c : Char) : Place :=
  if isBreak c then ⟨place.offset + c.utf8Size, place.line + 1, 0, true⟩
  else ⟨place.offset + c.utf8Size, place.line, place.column + 1, place.leads && c == ' '⟩

/-- The character stands here as a byte order mark: it starts a line. -/
def isByteOrderMark (place : Place) (c : Char) : Bool := c == '\ufeff' && place.column == 0

end Place

/-! ## Movement -/

/-- A place in a document and what is written from there on. -/
structure Cursor where
  place : Place
  rest : List Char

namespace Cursor

/-- The start of a document. -/
def start (text : List Char) : Cursor := ⟨{}, text⟩

def line (c : Cursor) : Nat := c.place.line

def column (c : Cursor) : Nat := c.place.column

/-- Nothing but spaces stands before the cursor on its line. -/
def leads (c : Cursor) : Bool := c.place.leads

/-- Nothing is left. -/
def atEnd (c : Cursor) : Bool := c.rest.isEmpty

/-- The cursor after the next character. -/
def next (c : Cursor) : Cursor :=
  match c.rest with
  | [] => c
  | ch :: rest => ⟨c.place.after ch, rest⟩

/-- The cursor after some characters. -/
def advance : Nat → Cursor → Cursor
  | 0, c => c
  | n + 1, c => advance n c.next

/-- The cursor where `rest`, which is the end of what is written, is left. -/
def upTo (c : Cursor) (rest : List Char) : Cursor := c.advance (c.rest.length - rest.length)

/-- The next character that is not a blank, a line break, a byte order mark or part of a comment.
Tabs are passed over where `tabs` says so: always within brackets and braces, else up to the end of
the line. -/
def skipFrom (inFlow : Bool) (tabs comment : Bool) (place : Place) : List Char → Cursor
  | [] => ⟨place, []⟩
  | c :: rest =>
    if isBreak c then skipFrom inFlow inFlow false (place.after c) rest
    else if comment || c == ' ' || (tabs && c == '\t') then
      skipFrom inFlow tabs comment (place.after c) rest
    else if place.isByteOrderMark c then
      skipFrom inFlow tabs comment { place.after c with leads := place.leads } rest
    else if c == '#' then skipFrom inFlow tabs true (place.after c) rest
    else ⟨place, c :: rest⟩

/-- The next place in brackets or braces where something is written. -/
def skipFlow (c : Cursor) : Cursor := skipFrom true true false c.place c.rest

/-- The next place in block style where something is written. -/
def skip (c : Cursor) (tabs : Bool) : Cursor := skipFrom false tabs false c.place c.rest

/-- The next place after a node.  Tabs do not indent, so they are passed over only where something
else stands before on the line. -/
def skipAfter (c : Cursor) : Cursor := c.skip !c.leads

/-! ## Looking ahead -/

/-- The character stands here. -/
def isAt (c : Cursor) (ch : Char) : Bool := c.rest.head? == some ch

/-- The character stands here alone, before a blank, a line break or the end. -/
def isAtAlone (c : Cursor) (ch : Char) : Bool :=
  match c.rest with
  | first :: rest => first == ch && blankNext rest
  | [] => false

/-- The dash of an entry stands here. -/
def atDash (c : Cursor) : Bool := c.isAtAlone '-'

/-- The colon after a key of a block mapping stands here. -/
def atColon (c : Cursor) : Bool := c.isAtAlone ':'

/-- The question mark before a key of a block mapping stands here. -/
def atKeyMark (c : Cursor) : Bool := c.isAtAlone '?'

/-- Within brackets or braces, what ends an item, a key or a value stands here. -/
def endsPart (c : Cursor) : Bool := c.isAt ',' || c.isAt ']' || c.isAt '\x7d'

/-- What stands at `after` can follow a key that starts here: the key is on one line and has at
most 1024 bytes, with what stands between it and `after`. -/
def sameKey (c after : Cursor) : Bool :=
  after.line == c.line && after.place.offset ≤ c.place.offset + 1024

end Cursor

end AzurePipelines.Yaml
