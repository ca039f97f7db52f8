import AzurePipelines.CommandLine.Arguments
import AzurePipelines.FileSystem.Access
import AzurePipelines.Schema.Reading
import AzurePipelines.Schema.Source

/-!
# The command `accessors`

The command reads a schema, and lists the parameters below a record, prints the source of their
accessors, or writes the source to a file.  A file that holds the source already is left alone.
-/

namespace AzurePipelines

/-- The path and type of every parameter of a group, each before those below it. -/
def AccessorGroup.listing (group : AccessorGroup) : List (String × String) :=
  group.flatten.map fun accessor => (accessor.reference.path, accessor.kind.text)

namespace CommandLine

/-! ## Failures and reports -/

/-- Why a request is not met. -/
inductive Failure where
  | noSchema (path : String)
  | unreadable (path : String)
  | schema (error : SchemaError)
  | undeclared (root : String)
  | noDirectory (path : String)
  | unwritable (path : String)

def Failure.message : Failure → String
  | noSchema path => "Schema file not found: " ++ path
  | unreadable path => "Failed to read " ++ path
  | schema error => error.message
  | undeclared root => "Record '" ++ root ++ "' is not declared in the schema"
  | noDirectory path => "Failed to create " ++ path
  | unwritable path => "Failed to write " ++ path

/-- What is said about a request that is met. -/
structure Report where
  /-- The result. -/
  printed : String := ""
  /-- What was done beside it. -/
  notices : String := ""
deriving DecidableEq, Repr

/-! ## Texts -/

/-- A text in a style of the terminal. -/
def styled (style text : String) : String := "\x1b[" ++ style ++ "m" ++ text ++ "\x1b[0m"

/-- Spaces that fill a text up to a width. -/
def fill (width : Nat) (text : String) : String :=
  String.ofList (List.replicate (width - text.length) ' ')

/-- A line of a list: what it is about, and a faint remark. -/
def row (label remark : String) : String :=
  "  " ++ label ++ fill 40 label ++ " " ++ styled "2" remark ++ "\n"

/-- A line about something that was done. -/
def status (action message : String) : String :=
  styled "1;36" (fill 12 action ++ action) ++ " " ++ message ++ "\n"

/-- A line about a success. -/
def success (message : String) : String := styled "1;32" "  ✓" ++ " " ++ message ++ "\n"

/-- The list of the parameters of a group. -/
def listingText (group : AccessorGroup) : String :=
  String.join (group.listing.map fun (path, kind) => row path kind)

/-! ## The command -/

/-- The accessors below a record that a schema has to declare. -/
def loadAccessors (text root : String) : Except Failure AccessorGroup := do
  let schema ← (Schema.parse text).mapError fun fault => .schema (.fault fault)
  if (schema.record? root).isNone then throw (.undeclared root)
  (schema.accessors root).mapError .schema

variable {m : Type → Type} [Monad m] [FileAccess m]

/-- Writes the source to a file that does not hold it yet. -/
def writeSource (path source notices : String) : m (Except Failure Report) := do
  match (Path.parent? path).filter (!·.isEmpty) with
  | none => writeFile
  | some directory =>
    if ← FileAccess.createDirectories directory then writeFile
    else return .error (.noDirectory directory)
where
  writeFile : m (Except Failure Report) := do
    if (← FileAccess.readText? path) = some source then return .ok {}
    else if ← FileAccess.writeText path source then return .ok { notices }
    else return .error (.unwritable path)

/-- Meets a request. -/
def Request.run (request : Request) : m (Except Failure Report) := do
  if !(← FileAccess.pathExists request.schema) then return .error (.noSchema request.schema)
  match ← FileAccess.readText? request.schema with
  | none => return .error (.unreadable request.schema)
  | some text =>
    match loadAccessors text request.root with
    | .error failure => return .error failure
    | .ok group =>
      if request.list then return .ok { printed := listingText group }
      match group.source, request.output with
      | .error fault, _ => return .error (.schema (.fault fault))
      | .ok source, none => return .ok { printed := source }
      | .ok source, some path =>
        writeSource path source (status "Generated" path ++
          success (toString group.references.length ++ " accessors for '" ++ request.root ++ "'"))

end CommandLine

end AzurePipelines
