import AzurePipelines.OrderedMap
import AzurePipelines.Publishing.Basic

/-!
# Publishing to memory

A sink that keeps texts under the paths of their targets, whatever the paths are relative to.
-/

namespace AzurePipelines

/-- A sink in memory that keeps the text of a target under the key of its path, and in which writing
to the paths that `refuses` holds of fails. -/
def keyedSink (key : String → String) (refuses : String → Bool) : Sink (OrderedMap String) where
  read target files := .ok (files.get? (key target.path))
  write target text files :=
    if refuses target.path then (.error (.access target.path), files)
    else (.ok (), files.insert (key target.path) text)
  describe target _ := target.path

/-- A sink in memory, in which writing to the paths in `broken` fails. -/
def memorySink (broken : List String) : Sink (OrderedMap String) :=
  keyedSink id fun path => decide (path ∈ broken)

end AzurePipelines
