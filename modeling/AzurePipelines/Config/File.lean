import AzurePipelines.Config.Reading
import AzurePipelines.FileSystem.Basic

/-!
# Configuration files

The configuration of a publisher is kept in a file of its own.
-/

namespace AzurePipelines

/-- Why a configuration cannot be had from a file. -/
inductive ConfigFault where
  | unreadable (path : String)
  | malformed (path : String) (fault : Yaml.ReadFault)
deriving DecidableEq, Repr

def ConfigFault.message : ConfigFault → String
  | unreadable path => "failed to read config '" ++ path ++ "'"
  | malformed path fault => "failed to parse config '" ++ path ++ "': " ++ fault.message

/-- The configuration that a file holds. -/
def PublishConfig.load (fs : FileSystem) (path : String) : Except ConfigFault PublishConfig :=
  match fs.readText path with
  | .error _ => .error (.unreadable path)
  | .ok text => (PublishConfig.parse text).mapError (.malformed path)

end AzurePipelines
