import AzurePipelines.Pipeline.Job

/-!
# Building conditioned blocks

A block starts with its condition and items.  Branches are added to it in order, and the branch
without a condition closes it: after that, `Conditioned.addElseIf` and `Conditioned.setElse` refuse.
Both give back the block that is there afterwards, beside what came of the call.
The builders make the same blocks item by item, and their types leave nothing to refuse: a
`BranchBuilder` adds to its latest branch, and becomes an `ElseBuilder` by the branch that closes
the block.  What adds items in another way than one by one is the same for both (`TakesItems`).
-/

namespace AzurePipelines

variable {α : Type}

/-! ## Adding branches -/

/-- A branch that cannot be added to a block. -/
inductive BranchError where
  /-- A branch with a condition, after the one without. -/
  | afterElse (condition : Condition)
  /-- A second branch without a condition, in the block of this condition. -/
  | secondElse (condition : Condition)
deriving DecidableEq, Repr

def BranchError.message : BranchError → String
  | .afterElse condition =>
    "invalid conditional chain: cannot add 'elseif " ++ condition.text ++ "' after 'else'"
  | .secondElse condition =>
    "invalid conditional chain: 'if " ++ condition.text ++ "' already has an 'else' branch"

namespace Conditioned

/-- A block with a single branch. -/
def new (condition : Condition) (items : List (ListItem α)) : Conditioned α :=
  ⟨condition, items, [], none⟩

/-- The number of entries that the block is written as. -/
def branchCount (block : Conditioned α) : Nat :=
  1 + block.elseIfs.length + if block.elseItems.isSome then 1 else 0

/-- Adds a branch with a condition. -/
def addElseIf (block : Conditioned α) (condition : Condition) (items : List (ListItem α)) :
    Except BranchError Unit × Conditioned α :=
  if block.elseItems.isSome then (.error (.afterElse condition), block)
  else (.ok (), { block with elseIfs := block.elseIfs ++ [⟨condition, items⟩] })

/-- Adds the branch without a condition. -/
def setElse (block : Conditioned α) (items : List (ListItem α)) :
    Except BranchError Unit × Conditioned α :=
  if block.elseItems.isSome then (.error (.secondElse block.condition), block)
  else (.ok (), { block with elseItems := some items })

end Conditioned

/-! ## Builders -/

/-- A builder that adds an item to its latest branch. -/
class TakesItems (β : Type) (α : outParam Type) where
  item : β → ListItem α → β

namespace TakesItems

variable {β : Type}

/-- Adds items to the latest branch, one by one. -/
def addItems [TakesItems β α] (b : β) (items : List (ListItem α)) : β := items.foldl item b

def addVariable [TakesItems β Variable] (b : β) (name : String) (value : Scalar) : β :=
  item b (.item (.value name value false))

def addGroup [TakesItems β Variable] (b : β) (name : String) : β := item b (.item (.group name))

def addStep [TakesItems β Step] (b : β) (step : ListItem Step) : β := item b step

def addJob [TakesItems β Job] (b : β) (job : ListItem Job) : β := item b job

def addStage [TakesItems β Stage] (b : β) (stage : ListItem Stage) : β := item b stage

end TakesItems

/-- A block whose latest branch takes items, and that takes further branches. -/
structure BranchBuilder (α : Type) where
  block : Conditioned α

/-- A block that ends with the branch without a condition, which takes items. -/
structure ElseBuilder (α : Type) where
  block : Conditioned α

namespace BranchBuilder

/-- Starts a block without items. -/
def start (condition : Condition) : BranchBuilder α := ⟨.new condition []⟩

/-- Adds an item to the latest branch. -/
def item (b : BranchBuilder α) (item : ListItem α) : BranchBuilder α :=
  match b.block.elseIfs.getLast? with
  | none => ⟨{ b.block with items := b.block.items ++ [item] }⟩
  | some branch =>
    let longer := { branch with items := branch.items ++ [item] }
    ⟨{ b.block with elseIfs := b.block.elseIfs.dropLast ++ [longer] }⟩

instance : TakesItems (BranchBuilder α) α := ⟨BranchBuilder.item⟩

/-- Starts a branch with a condition. -/
def elseIf (b : BranchBuilder α) (condition : Condition) : BranchBuilder α :=
  ⟨{ b.block with elseIfs := b.block.elseIfs ++ [⟨condition, []⟩] }⟩

/-- Starts the branch without a condition. -/
def otherwise (b : BranchBuilder α) : ElseBuilder α :=
  ⟨{ b.block with elseItems := some [] }⟩

def build (b : BranchBuilder α) : Conditioned α := b.block

end BranchBuilder

namespace ElseBuilder

/-- Adds an item to the branch without a condition; where there is none the item is passed over. -/
def item (b : ElseBuilder α) (item : ListItem α) : ElseBuilder α :=
  ⟨{ b.block with elseItems := b.block.elseItems.map (· ++ [item]) }⟩

instance : TakesItems (ElseBuilder α) α := ⟨ElseBuilder.item⟩

def build (b : ElseBuilder α) : Conditioned α := b.block

end ElseBuilder

end AzurePipelines
