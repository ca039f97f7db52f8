import AzurePipelines.CommandLine.Accessors

/-!
# The program

Meets the request that the arguments make, on real files.
-/

namespace AzurePipelines

instance : FileAccess IO where
  pathExists path := do return (← (IO.FS.realPath path).toBaseIO).isOk
  readText? path := do return (← (IO.FS.readFile path).toBaseIO).toOption
  createDirectories path := do return (← (IO.FS.createDirAll path).toBaseIO).isOk
  writeText path text := do return (← (IO.FS.writeFile path text).toBaseIO).isOk

end AzurePipelines

open AzurePipelines CommandLine in
/-- Exits with 0 if the request is met, with 1 if it fails, and with 2 if there is none. -/
def main (arguments : List String) : IO UInt32 := do
  match Request.ofArguments arguments with
  | .error fault =>
    IO.eprintln ("error: " ++ fault.message)
    return 2
  | .ok request =>
    match ← request.run with
    | .error failure =>
      IO.eprintln ("Error: " ++ failure.message)
      return 1
    | .ok report =>
      IO.print report.printed
      IO.eprint report.notices
      return 0
