import AzurePipelines.FileSystem.Path

/-!
# A file system

Files and directories under a root, and the operations on them that take paths.  A path leads from
the working directory, or from the root, through one name after the other; every name is looked up
in a directory, also one that stands for the directory itself or for the one above it.  A name that
is too long is at fault when it is looked up, and a path that is too long or holds a null character
before any of its names is.

Directories are made and files written, but nothing is ever removed.
-/

namespace AzurePipelines

/-! ## Contents -/

/-- What a place holds. -/
inductive FileEntry where
  | directory
  | file (contents : ByteArray)

/-- The names that lead from the root to a place. -/
abbrev Place := List String

/-- Places and what they hold, and the place from which relative paths lead. -/
structure FileSystem where
  entries : List (Place × FileEntry) := []
  workingDirectory : Place := []

/-- Why an operation on a path fails. -/
inductive FileFault where
  | notFound
  | notADirectory
  | notAFile
  | notText
  | notAPath
  | tooLong
deriving DecidableEq, Repr

namespace FileSystem

/-- What a place holds.  The root is a directory. -/
def entryAt? (fs : FileSystem) (place : Place) : Option FileEntry :=
  if place = [] then some .directory else fs.entries.lookup place

/-- Sets what a place holds. -/
def setEntry (fs : FileSystem) (place : Place) (entry : FileEntry) : FileSystem :=
  { fs with entries := fs.entries.filter (·.1 != place) ++ [(place, entry)] }

def isDirectory (fs : FileSystem) (place : Place) : Bool :=
  fs.entryAt? place matches some .directory

/-! ## Places of paths -/

/-- The place one name further. -/
def follow (place : Place) (name : String) : Place :=
  if name = "" ∨ name = "." then place
  else if name = ".." then place.dropLast
  else place ++ [name]

/-- The place that names lead to.  Whether it holds anything is not asked, but every name has to be
looked up in a directory. -/
def walk (fs : FileSystem) (place : Place) : List String → Except FileFault Place
  | [] => .ok place
  | name :: rest =>
    match fs.entryAt? place with
    | some .directory =>
      if Path.isTooLongName name then .error .tooLong else fs.walk (follow place name) rest
    | some (.file _) => .error .notADirectory
    | none => .error .notFound

/-- Where a path starts. -/
def origin (fs : FileSystem) (path : String) : Place :=
  if Path.isAbsolute path then [] else fs.workingDirectory

/-- The place that the names of a path lead to.  The empty path leads nowhere. -/
def resolve (fs : FileSystem) (path : String) : Except FileFault Place :=
  if Path.hasNull path then .error .notAPath
  else if path.isEmpty then .error .notFound
  else fs.walk (fs.origin path) (Path.names path)

/-- The place that a path leads to if it is looked up as a whole. -/
def placeOf (fs : FileSystem) (path : String) : Except FileFault Place :=
  if Path.isTooLong path then .error .tooLong else fs.resolve path

/-- What a path leads to. -/
def find (fs : FileSystem) (path : String) : Except FileFault (Place × FileEntry) := do
  let place ← fs.placeOf path
  match fs.entryAt? place with
  | some entry => return (place, entry)
  | none => throw .notFound

def pathExists (fs : FileSystem) (path : String) : Bool := fs.find path matches .ok _

/-! ## Reading and writing -/

/-- The text of a file. -/
def readText (fs : FileSystem) (path : String) : Except FileFault String := do
  match ← fs.find path with
  | (_, .directory) => throw .notAFile
  | (_, .file contents) =>
    match String.fromUTF8? contents with
    | some text => return text
    | none => throw .notText

/-- Makes the directories that names lead through from a directory, as far as they are missing.
Those made before a failure stay. -/
def makeDirectories (place : Place) : List String → FileSystem → Except FileFault Unit × FileSystem
  | [], fs => (.ok (), fs)
  | name :: rest, fs =>
    let next := follow place name
    if Path.isTooLongName name then (.error .tooLong, fs)
    else match fs.entryAt? next with
      | some .directory => makeDirectories next rest fs
      | some (.file _) => (.error .notADirectory, fs)
      | none => makeDirectories next rest (fs.setEntry next .directory)

/-- Makes the directory of a path and all above it, as far as they are missing. -/
def createDirectories (fs : FileSystem) (path : String) : Except FileFault Unit × FileSystem :=
  if Path.hasNull path then (.error .notAPath, fs)
  else if Path.isTooLong path then (.error .tooLong, fs)
  else makeDirectories (fs.origin path) (Path.names path) fs

/-- Replaces the file of a path, whose last name has to be the name of a file. -/
def writeFile (fs : FileSystem) (path : String) (contents : ByteArray) :
    Except FileFault FileSystem := do
  let place ← fs.placeOf path
  if (Path.names path).getLast?.all ["", ".", ".."].contains then throw .notAFile
  if fs.isDirectory place then throw .notAFile
  return fs.setEntry place (.file contents)

/-! ## Repositories -/

/-- The absolute path of a place. -/
def absolutePath (place : Place) : String := "/" ++ "/".intercalate place

/-- A place and all above it, up to the root. -/
def upwards (place : Place) : List Place :=
  (List.range (place.length + 1)).map fun n => place.take (place.length - n)

/-- The absolute path of the nearest directory at or above the end of a path in which `.git` is
found, if the path leads anywhere.  The names of the path are followed one by one, so that there may
be any number of them. -/
def repositoryRoot? (fs : FileSystem) (path : String) : Option String := do
  let place ← (fs.resolve path).toOption
  let _ ← fs.entryAt? place
  let root ← (upwards place).find? fun above => (fs.entryAt? (above ++ [".git"])).isSome
  return absolutePath root

end FileSystem

end AzurePipelines
