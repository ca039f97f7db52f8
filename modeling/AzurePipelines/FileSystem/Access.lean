import AzurePipelines.FileSystem.Basic

/-!
# Access to files

The operations on files that a program needs which only reads and writes texts.  A program that is
written for any monad with these operations runs on real files as well as on a `FileSystem`.
-/

namespace AzurePipelines

/-- Operations on files; those that can fail say only whether they did. -/
class FileAccess (m : Type → Type) where
  pathExists : String → m Bool
  /-- The text of a file that can be read. -/
  readText? : String → m (Option String)
  /-- Makes a directory and all above it, as far as they are missing. -/
  createDirectories : String → m Bool
  /-- Replaces the text of a file. -/
  writeText : String → String → m Bool

instance : FileAccess (StateM FileSystem) where
  pathExists path fs := (fs.pathExists path, fs)
  readText? path fs := ((fs.readText path).toOption, fs)
  createDirectories path fs :=
    match fs.createDirectories path with
    | (.ok (), fs) => (true, fs)
    | (.error _, fs) => (false, fs)
  writeText path text fs :=
    match fs.writeFile path text.toUTF8 with
    | .ok fs => (true, fs)
    | .error _ => (false, fs)

end AzurePipelines
