import AzurePipelines.Expression
import AzurePipelines.Value

/-!
# Lists of a pipeline

A pipeline lists variables, steps, jobs and stages.  Wherever an item may stand, a list may hold
instead a block of items under a condition, a reference to a template, or a fragment: a run of items
that was built elsewhere and is spliced in place.  Blocks nest, and so do fragments.
-/

namespace AzurePipelines

/-! ## Kinds of items -/

/-- The four kinds of items that lists hold. -/
inductive ItemKind where
  | variable
  | step
  | job
  | stage
deriving DecidableEq, Repr

/-- The key of a list of this kind. -/
def ItemKind.listKey : ItemKind → String
  | .variable => "variables"
  | .step => "steps"
  | .job => "jobs"
  | .stage => "stages"

def ItemKind.name : ItemKind → String
  | .variable => "variable"
  | .step => "step"
  | .job => "job"
  | .stage => "stage"

/-! ## Entries of lists -/

/-- A reference to a template file, with its parameters. -/
structure TemplateReference where
  path : String
  parameters : OrderedMap Value

mutual

/-- One entry of a list of items of type `α`. -/
inductive ListItem (α : Type) where
  | item (value : α)
  | block (block : Conditioned α)
  | template (reference : TemplateReference)
  /-- A fragment of the kind of the list: its items stand in its place. -/
  | fragment (items : List (ListItem α))
  /-- A fragment of another kind, which has no place in the list.  Of its items only the number
  matters. -/
  | foreignFragment (kind : ItemKind) (size : Nat)

/-- Items that exist only where `condition` holds, and the branches to take where it does not. -/
structure Conditioned (α : Type) where
  condition : Condition
  items : List (ListItem α)
  elseIfs : List (Branch α)
  elseItems : Option (List (ListItem α))

/-- One branch that is taken where its condition holds and no branch above it was taken. -/
structure Branch (α : Type) where
  condition : Condition
  items : List (ListItem α)

end

end AzurePipelines
