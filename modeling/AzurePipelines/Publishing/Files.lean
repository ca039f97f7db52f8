import AzurePipelines.FileSystem.Basic
import AzurePipelines.Publishing.Basic

/-!
# Publishing to files

A sink that keeps the text of a target in a file, below the directory of the caller or the root of
the repository around it.  The directory of a file is made when the file is written.
-/

namespace AzurePipelines

/-! ## Locations -/

/-- The path of the file of a target, which is not normalized. -/
def Target.location (target : Target) (caller : String) (fs : FileSystem) :
    Except PublishFault String :=
  match target.base with
  | .callerDirectory => .ok (Path.join caller target.path)
  | .repositoryRoot =>
    match fs.repositoryRoot? caller with
    | some root => .ok (Path.join root target.path)
    | none => .error (.noRepository caller)

/-! ## Files -/

/-- The text of a file, and `none` where there is no file. -/
def readIfPresent (path : String) (fs : FileSystem) : Except PublishFault (Option String) :=
  match fs.readText path with
  | .ok text => .ok (some text)
  | .error .notFound => .ok none
  | .error _ => .error (.access path)

/-- Writes a text to a file after making its directory. -/
def writeWithDirectory (path text : String) (fs : FileSystem) :
    Except PublishFault Unit × FileSystem :=
  let directory := match Path.parent? path with
    | none | some "" => "."
    | some parent => parent
  match fs.createDirectories directory with
  | (.error _, fs) => (.error (.access directory), fs)
  | (.ok (), fs) =>
    match fs.writeFile path text.toUTF8 with
    | .error _ => (.error (.access path), fs)
    | .ok fs => (.ok (), fs)

/-! ## The sink -/

/-- The sink for a caller in the directory `caller`. -/
def fileSink (caller : String) : Sink FileSystem where
  read target fs := do readIfPresent (← target.location caller fs) fs
  write target text fs :=
    match target.location caller fs with
    | .error fault => (.error fault, fs)
    | .ok path => writeWithDirectory path text fs
  describe target fs :=
    match target.location caller fs with
    | .ok path => path
    | .error _ => target.path

end AzurePipelines
