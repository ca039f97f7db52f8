import AzurePipelines.Yaml.Plain

/-!
# Lines of documents

A line ends with a line feed, with one of the marks that are read as line feeds (`withLineFeeds`),
or with one of the two separators of Unicode, which are kept as they are.  `linesOf` cuts a text
after every line break and loses nothing (`flatten_linesOf`).  A line that starts with three dashes
or three dots marks where a document starts or ends.
-/

namespace AzurePipelines.Yaml

/-- A character that ends a line: the line feed and the separators of lines and paragraphs. -/
def isBreak (c : Char) : Bool := c == '\n' || c == '\u2028' || c == '\u2029'

/-- The text with a line feed for every carriage return, alone or before a line feed, and for every
next-line mark. -/
def withLineFeeds : List Char → List Char
  | '\r' :: '\n' :: rest => '\n' :: withLineFeeds rest
  | c :: rest => (if c == '\r' || c == '\x85' then '\n' else c) :: withLineFeeds rest
  | [] => []

/-- The lines of a text, each with the break that ends it. -/
def linesOf : List Char → List (List Char)
  | [] => []
  | c :: rest =>
    if isBreak c then [c] :: linesOf rest
    else match linesOf rest with
      | [] => [[c]]
      | line :: lines => (c :: line) :: lines

/-- The lines, one after the other, are the text. -/
theorem flatten_linesOf (text : List Char) : (linesOf text).flatten = text := by
  induction text with
  | nil => rfl
  | cons c rest ih =>
    rw [linesOf]
    by_cases hc : isBreak c = true
    · simp [hc, ih]
    · cases hl : linesOf rest with
      | nil => simp_all
      | cons line lines => simp_all

/-- A blank, a line break or the end comes next. -/
def blankNext : List Char → Bool
  | [] => true
  | c :: _ => isSpaceOrTab c || isBreak c

/-- The line starts with three times the same mark, and a blank after it. -/
def isMarker (mark : Char) (line : List Char) : Bool :=
  line.take 3 == List.replicate 3 mark && blankNext (line.drop 3)

example : linesOf "a\n\u2028b".toList = ["a\n".toList, "\u2028".toList, "b".toList] := by decide
example : (["--- a", "---\n", "---"].map (isMarker '-' ·.toList)).all id = true := by decide
example : (["----", " ---", "---a"].map (isMarker '-' ·.toList)).any id = false := by decide

end AzurePipelines.Yaml
