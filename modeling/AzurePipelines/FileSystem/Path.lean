import AzurePipelines.Text.Pieces

/-!
# Paths

A path is the text that a user wrote, and stays so: paths are joined and cut as texts, and no name
is resolved.  Slashes stand between the names of a path; a slash in front makes it absolute.  Not
every text can be looked up as a path: a null character stands in none, and paths and their names
have a greatest size.
-/

namespace AzurePipelines.Path

/-- The path starts at the root of the file system. -/
def isAbsolute (path : String) : Bool := path.toList.head? == some '/'

/-- The names of a path, among them empty ones around slashes that follow each other. -/
def names (path : String) : List String := (Text.pieces '/' path.toList).map String.ofList

/-- A null character ends a path, so that it cannot be part of one. -/
def hasNull (path : String) : Bool := path.toList.contains '\x00'

/-- A path that is looked up has at most 4095 bytes. -/
def isTooLong (path : String) : Bool := 4095 < path.utf8ByteSize

/-- The name of a file or directory has at most 255 bytes. -/
def isTooLongName (name : String) : Bool := 255 < name.utf8ByteSize

/-- A path that is relative to `base`, unless it is absolute. -/
def join (base path : String) : String :=
  if isAbsolute path then path
  else if base.isEmpty || base.toList.getLast? == some '/' then base ++ path
  else base ++ "/" ++ path

/-- A name that says nothing: an empty one, or one that stands for the directory it is looked up
in. -/
def isIdle (name : List Char) : Bool := name.isEmpty || name == ['.']

/-- The names without those at the end that say nothing.  A relative path that has no other names
keeps its first one if that stands for the directory it is relative to. -/
def trimNames (absolute : Bool) (names : List (List Char)) : List (List Char) :=
  let kept := (names.reverse.dropWhile isIdle).reverse
  if kept.isEmpty && !absolute && names.head? == some ['.'] then [['.']] else kept

/-- The path without its last name, and empty if it has only one; a path without any name has no
parent. -/
def parent? (path : String) : Option String :=
  let absolute := isAbsolute path
  let names := Text.pieces '/' path.toList
  let body := trimNames absolute (if absolute then names.drop 1 else names)
  if body.isEmpty then none
  else
    let above := ['/'].intercalate (trimNames absolute body.dropLast)
    some (String.ofList (if absolute then '/' :: above else above))

example : join "a" "b/../c" = "a/b/../c" ∧ join "a/" "b" = "a/b" ∧ join "a" "/b" = "/b" := by
  decide
example : parent? "a/b/./c/." = some "a/b" ∧ parent? "./c" = some "." ∧ parent? "c" = some "" ∧
    parent? "./." = some "" ∧ parent? "a//b/c" = some "a//b" ∧ parent? "/c" = some "/" ∧
    parent? "/" = none ∧ parent? "" = none := by decide

end AzurePipelines.Path
