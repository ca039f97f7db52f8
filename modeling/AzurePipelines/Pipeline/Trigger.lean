/-!
# Triggers

What starts a pipeline: pushes, pull requests and schedules, narrowed down by filters of patterns.
-/

namespace AzurePipelines

/-- The patterns of branches, paths or tags to take and to leave. -/
structure Filter where
  included : List String
  excluded : List String
deriving DecidableEq, Repr

namespace Filter

def empty : Filter := ⟨[], []⟩

/-- The filter that takes what matches one of the patterns. -/
def including (patterns : List String) : Filter := ⟨patterns, []⟩

def isEmpty (f : Filter) : Bool := f.included.isEmpty && f.excluded.isEmpty

end Filter

/-- The pushes that start a pipeline. -/
inductive Trigger where
  | never
  | pushes (batch : Option Bool) (branches paths tags : Option Filter)
deriving DecidableEq, Repr

/-- Pushes to branches that match one of the patterns. -/
def Trigger.branches (patterns : List String) : Trigger :=
  .pushes none (some (.including patterns)) none none

/-- The pull requests that start a pipeline. -/
inductive PrTrigger where
  | never
  | pullRequests (autoCancel : Option Bool) (branches paths : Option Filter)
    (drafts : Option Bool)
deriving DecidableEq, Repr

/-- Pull requests into branches that match one of the patterns. -/
def PrTrigger.branches (patterns : List String) : PrTrigger :=
  .pullRequests none (some (.including patterns)) none none

/-- A start at fixed times. -/
structure Schedule where
  cron : String
  displayName : Option String
  branches : Filter
  /-- Start even if nothing has changed since the last run. -/
  always : Bool
  batch : Bool
deriving DecidableEq, Repr

end AzurePipelines
