import AzurePipelines.Proofs.Pipeline.BranchChains
import AzurePipelines.Proofs.Pipeline.Grouping
import Mathlib

/-!
# Blocks made item by item

A builder is told of items and branches one by one: an item goes to the branch that was started
last, and the branch without a condition ends the branches, so that only items may follow.  A
`BuilderRun` is any such run of calls, from the one that starts the block to the last item.

The same block can be made branch by branch, where each branch is given with all of its items
(`BuilderRun.batch`).  `BuilderRun.batch_eq_build` says that this is never refused and makes the
same block, whose branches hold the items of all calls in the order of the calls.
-/

namespace AzurePipelines

open TakesItems

/-! ## Items for the latest branch -/

section Branches

variable {α : Type}

namespace Conditioned

/-- The block with further branches behind its own. -/
def withBranches (block : Conditioned α) (branches : List (Branch α)) : Conditioned α :=
  { block with elseIfs := block.elseIfs ++ branches }

/-- The items of all branches in order. -/
def branchItems (block : Conditioned α) : List (ListItem α) :=
  block.items ++ block.elseIfs.flatMap Branch.items ++ block.elseItems.getD []

theorem withBranches_nil (block : Conditioned α) : block.withBranches [] = block := by
  obtain ⟨condition, items, elseIfs, elseItems⟩ := block
  rw [withBranches, List.append_nil]

theorem withBranches_withBranches (block : Conditioned α) (one other : List (Branch α)) :
    (block.withBranches one).withBranches other = block.withBranches (one ++ other) := by
  simp only [withBranches, List.append_assoc]

end Conditioned

/-- If every item comes behind those that are there, then items come behind them in their order. -/
theorem TakesItems.addItems_eq {β : Type} [TakesItems β α] {filled : List (ListItem α) → β}
    (step : ∀ done entry, item (filled done) entry = filled (done ++ [entry]))
    (done items : List (ListItem α)) : addItems (filled done) items = filled (done ++ items) := by
  induction items generalizing done with
  | nil => rw [List.append_nil]; rfl
  | cons entry items ih =>
    rw [addItems, List.foldl_cons, step]
    apply (ih (done ++ [entry])).trans
    rw [List.append_assoc, List.singleton_append]

theorem TakesItems.addItems_append {β : Type} [TakesItems β α] (b : β)
    (one other : List (ListItem α)) : addItems (addItems b one) other = addItems b (one ++ other) :=
  List.foldl_append.symm

/-- Where only the first branch was started, all items go to it. -/
theorem BranchBuilder.addItems_new (condition : Condition) (done items : List (ListItem α)) :
    addItems (⟨.new condition done⟩ : BranchBuilder α) items =
      ⟨.new condition (done ++ items)⟩ := by
  have first (done : List (ListItem α)) (entry : ListItem α) :
      TakesItems.item (⟨.new condition done⟩ : BranchBuilder α) entry =
        ⟨.new condition (done ++ [entry])⟩ := rfl
  exact addItems_eq first done items

/-- Otherwise they go to the branch that was started last, and the others stay as they are. -/
theorem BranchBuilder.addItems_withBranches (block : Conditioned α) (condition : Condition)
    (done items : List (ListItem α)) :
    addItems (⟨block.withBranches [⟨condition, done⟩]⟩ : BranchBuilder α) items =
      ⟨block.withBranches [⟨condition, done ++ items⟩]⟩ := by
  have latest (done : List (ListItem α)) (entry : ListItem α) :
      TakesItems.item (⟨block.withBranches [⟨condition, done⟩]⟩ : BranchBuilder α) entry =
        ⟨block.withBranches [⟨condition, done ++ [entry]⟩]⟩ := by
    simp [TakesItems.item, item, Conditioned.withBranches]
  exact addItems_eq latest done items

/-- The items of a branch that was just started are all that it holds. -/
theorem BranchBuilder.addItems_elseIf (b : BranchBuilder α) (condition : Condition)
    (items : List (ListItem α)) :
    addItems (b.elseIf condition) items = ⟨b.block.withBranches [⟨condition, items⟩]⟩ :=
  addItems_withBranches b.block condition [] items

/-- Items for the branch without a condition are all kept once that branch was started. -/
theorem ElseBuilder.addItems_otherwise (b : BranchBuilder α) (items : List (ListItem α)) :
    addItems b.otherwise items = ⟨{ b.block with elseItems := some items }⟩ := by
  have last (done : List (ListItem α)) (entry : ListItem α) :
      TakesItems.item (⟨{ b.block with elseItems := some done }⟩ : ElseBuilder α) entry =
        ⟨{ b.block with elseItems := some (done ++ [entry]) }⟩ := rfl
  exact addItems_eq last [] items

end Branches

/-! ## Calls on a builder -/

variable {kind : ItemKind}

/-- The shorthands by which an item of each kind is added. -/
inductive Shorthand : ItemKind → Type where
  | variable (name : String) (value : Scalar) : Shorthand .variable
  | group (name : String) : Shorthand .variable
  | step (entry : ListItem Step) : Shorthand .step
  | job (entry : ListItem Job) : Shorthand .job
  | stage (entry : ListItem Stage) : Shorthand .stage

/-- The item that the shorthand is to add. -/
def Shorthand.entry : {kind : ItemKind} → Shorthand kind → ListItem kind.Item
  | _, .variable name value => .item (Variable.value name value false)
  | _, .group name => .item (Variable.group name)
  | _, .step entry => entry
  | _, .job entry => entry
  | _, .stage entry => entry

/-- The shorthand on a builder. -/
def Shorthand.on {β : Type} :
    {kind : ItemKind} → [TakesItems β kind.Item] → β → Shorthand kind → β
  | _, builder, b, .variable name value => @addVariable β builder b name value
  | _, builder, b, .group name => @addGroup β builder b name
  | _, builder, b, .step entry => @addStep β builder b entry
  | _, builder, b, .job entry => @addJob β builder b entry
  | _, builder, b, .stage entry => @addStage β builder b entry

/-- A call that adds items to the branch that was started last. -/
inductive ItemCall (kind : ItemKind) where
  | item (entry : ListItem kind.Item)
  | items (entries : List (ListItem kind.Item))
  | shorthand (call : Shorthand kind)

namespace ItemCall

/-- The items that the call is to add. -/
def entries : ItemCall kind → List (ListItem kind.Item)
  | item entry => [entry]
  | items entries => entries
  | shorthand call => [call.entry]

variable {β : Type} [TakesItems β kind.Item]

/-- The call on a builder. -/
def on (b : β) : ItemCall kind → β
  | item entry => TakesItems.item b entry
  | items entries => addItems b entries
  | shorthand call => call.on b

/-- Every call adds its items, one by one. -/
theorem on_eq (b : β) (call : ItemCall kind) : call.on b = addItems b call.entries := by
  cases call with
  | item entry => rfl
  | items entries => rfl
  | shorthand call => cases call <;> rfl

theorem foldl_on (b : β) (calls : List (ItemCall kind)) :
    calls.foldl on b = addItems b (calls.flatMap entries) := by
  induction calls generalizing b with
  | nil => rfl
  | cons call calls ih => rw [List.foldl_cons, ih, on_eq, List.flatMap_cons, addItems_append]

end ItemCall

/-- A call on a block whose branches have not ended. -/
inductive BuilderCall (kind : ItemKind) where
  | add (call : ItemCall kind)
  | elseIf (condition : Condition)

namespace BuilderCall

/-- What the call makes of the builder. -/
def onBranch (b : BranchBuilder kind.Item) : BuilderCall kind → BranchBuilder kind.Item
  | add call => call.on b
  | elseIf condition => b.elseIf condition

/-- The items that the call adds. -/
def entries : BuilderCall kind → List (ListItem kind.Item)
  | add call => call.entries
  | elseIf _ => []

/-- The items that are added until a branch is started. -/
def leadingItems : List (BuilderCall kind) → List (ListItem kind.Item)
  | [] => []
  | add call :: calls => call.entries ++ leadingItems calls
  | elseIf _ :: _ => []

/-- The branches that are started, each with the items that are added until the next one is. -/
def startedBranches : List (BuilderCall kind) → List (Branch kind.Item)
  | [] => []
  | add _ :: calls => startedBranches calls
  | elseIf condition :: calls => ⟨condition, leadingItems calls⟩ :: startedBranches calls

/-- Items up to the first branch go to the branch that was there, and the branches behind it. -/
theorem foldl_onBranch (b : BranchBuilder kind.Item) (calls : List (BuilderCall kind)) :
    calls.foldl onBranch b =
      ⟨(addItems b (leadingItems calls)).block.withBranches (startedBranches calls)⟩ := by
  induction calls generalizing b with
  | nil => rw [startedBranches, Conditioned.withBranches_nil]; rfl
  | cons call calls ih =>
    rw [List.foldl_cons, ih]
    cases call with
    | add call =>
      rw [onBranch, ItemCall.on_eq, addItems_append, leadingItems, startedBranches]
    | elseIf condition =>
      rw [onBranch, BranchBuilder.addItems_elseIf, Conditioned.withBranches_withBranches,
        leadingItems, startedBranches, List.singleton_append]
      rfl

/-- Cut into branches, the items of the calls are all there and in their order. -/
theorem leadingItems_append_flatMap (calls : List (BuilderCall kind)) :
    leadingItems calls ++ (startedBranches calls).flatMap Branch.items =
      calls.flatMap entries := by
  induction calls with
  | nil => rfl
  | cons call calls ih =>
    cases call with
    | add call =>
      rw [leadingItems, startedBranches, List.append_assoc, ih, List.flatMap_cons, entries]
    | elseIf condition =>
      rw [leadingItems, startedBranches, List.flatMap_cons, List.flatMap_cons, ih]
      rfl

end BuilderCall

/-! ## Runs -/

/-- A run of calls that makes a block: the types of the builders allow these runs and no others. -/
structure BuilderRun (kind : ItemKind) where
  /-- The condition that the block starts from. -/
  condition : Condition
  /-- The call that starts the block with items; without it the block starts empty. -/
  first : Option (ItemCall kind)
  calls : List (BuilderCall kind)
  /-- The calls on the branch without a condition, if it is started. -/
  last : Option (List (ItemCall kind))

namespace BuilderRun

/-- The items that the block starts with. -/
def firstItems (r : BuilderRun kind) : List (ListItem kind.Item) :=
  (r.first.map ItemCall.entries).getD []

/-- The items of the branch without a condition. -/
def lastItems (r : BuilderRun kind) : Option (List (ListItem kind.Item)) :=
  r.last.map (List.flatMap ItemCall.entries)

/-- The items of all calls. -/
def entries (r : BuilderRun kind) : List (ListItem kind.Item) :=
  r.firstItems ++ r.calls.flatMap BuilderCall.entries ++ r.lastItems.getD []

/-! ### Item by item -/

/-- The builder after the first call. -/
def start (r : BuilderRun kind) : BranchBuilder kind.Item :=
  match r.first with
  | none => .start r.condition
  | some call => call.on (BranchBuilder.start r.condition)

/-- The builder after all calls that may be followed by another branch. -/
def branches (r : BuilderRun kind) : BranchBuilder kind.Item :=
  r.calls.foldl BuilderCall.onBranch r.start

/-- The block that the calls make. -/
def build (r : BuilderRun kind) : Conditioned kind.Item :=
  match r.last with
  | none => r.branches.build
  | some calls => (calls.foldl ItemCall.on r.branches.otherwise).build

theorem start_eq (r : BuilderRun kind) : r.start = ⟨.new r.condition r.firstItems⟩ := by
  rw [start, firstItems]
  cases r.first with
  | none => rfl
  | some call =>
    have added := BranchBuilder.addItems_new r.condition [] call.entries
    exact (ItemCall.on_eq (BranchBuilder.start r.condition) call).trans added

theorem branches_eq (r : BuilderRun kind) : r.branches =
    ⟨⟨r.condition, r.firstItems ++ BuilderCall.leadingItems r.calls,
      BuilderCall.startedBranches r.calls, none⟩⟩ := by
  rw [branches, start_eq, BuilderCall.foldl_onBranch, BranchBuilder.addItems_new]
  rfl

/-- The block has the branches of the calls, each with its own items. -/
theorem build_eq (r : BuilderRun kind) : r.build =
    ⟨r.condition, r.firstItems ++ BuilderCall.leadingItems r.calls,
      BuilderCall.startedBranches r.calls, r.lastItems⟩ := by
  rw [build, lastItems]
  cases r.last with
  | none =>
    rw [branches_eq]
    rfl
  | some calls =>
    have kept := (ItemCall.foldl_on r.branches.otherwise calls).trans
      (ElseBuilder.addItems_otherwise r.branches (calls.flatMap ItemCall.entries))
    apply (congrArg ElseBuilder.build kept).trans
    rw [branches_eq]
    rfl

/-! ### Branch by branch -/

/-- The calls that add the branches of the run, each with all of its items. -/
def branchCalls (r : BuilderRun kind) : List (BranchCall kind.Item) :=
  (BuilderCall.startedBranches r.calls).map (fun branch =>
    .elseIf branch.condition branch.items) ++ (r.lastItems.map BranchCall.otherwise).toList

/-- What comes of making the block of the items of its first branch and of whole branches. -/
def batch (r : BuilderRun kind) : Except BranchError Unit × Conditioned kind.Item :=
  Conditioned.callAll (.new r.condition (r.firstItems ++ BuilderCall.leadingItems r.calls))
    r.branchCalls

end BuilderRun

/-- An open block takes any number of branches with conditions, whatever is called after them. -/
theorem Conditioned.callAll_elseIf {α : Type} {block : Conditioned α}
    (isOpen : block.elseItems = none) (branches : List (Branch α)) (calls : List (BranchCall α)) :
    block.callAll (branches.map (fun branch => .elseIf branch.condition branch.items) ++ calls) =
      (block.withBranches branches).callAll calls := by
  induction branches generalizing block with
  | nil => rw [withBranches_nil]; rfl
  | cons branch branches ih =>
    have takes : block.call (.elseIf branch.condition branch.items) =
        (.ok (), block.withBranches [branch]) := by
      obtain ⟨condition, items⟩ := branch
      rw [call_of_open isOpen, withBranches, isOpen]
      rfl
    have stillOpen : (block.withBranches [branch]).elseItems = none := isOpen
    rw [List.map_cons, List.cons_append, callAll, takes]
    apply (ih stillOpen).trans
    rw [withBranches_withBranches, List.singleton_append]

/-- **A block made item by item is the one made branch by branch.**  No branch is refused, each has
the items that were added between its start and that of the next one, and the items of all branches
in order are those of all calls in order. -/
theorem BuilderRun.batch_eq_build (r : BuilderRun kind) :
    r.batch = (.ok (), r.build) ∧ r.build.branchItems = r.entries := by
  constructor
  · rw [batch, branchCalls, Conditioned.callAll_elseIf rfl, build_eq]
    cases r.lastItems <;> rfl
  · rw [build_eq, Conditioned.branchItems, entries, ← BuilderCall.leadingItems_append_flatMap,
      List.append_assoc r.firstItems]

-- An item behind a branch that was left empty goes to that branch, not to the one in front.
example (one two : Condition) (entry : ListItem Step) :
    (BuilderRun.build ⟨one, none, [.elseIf two, .add (.shorthand (.step entry))], none⟩ :
      Conditioned Step) = ⟨one, [], [⟨two, [entry]⟩], none⟩ := rfl

end AzurePipelines
