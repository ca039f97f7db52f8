import AzurePipelines.Pipeline.Branching
import Mathlib

/-!
# Chains of branches

Branches are added to a block call by call, and whether a call is refused depends on the calls
before it: the first branch without a condition closes the block, with items or without, and from
then on every call is refused and leaves the block as it was (`Conditioned.afterCalls_of_closed`).
Until then each call adds its branch behind the others (`Conditioned.afterCalls_of_open`).
`Conditioned.afterCalls_new` says this of all runs of calls on a new block.
-/

namespace AzurePipelines

variable {α : Type}

/-! ## Calls -/

/-- A call that is to add a branch to a block. -/
inductive BranchCall (α : Type) where
  | elseIf (condition : Condition) (items : List (ListItem α))
  | otherwise (items : List (ListItem α))

namespace BranchCall

/-- The call adds the branch without a condition. -/
def closes : BranchCall α → Bool
  | .elseIf _ _ => false
  | .otherwise _ => true

/-- The branch with a condition that the call adds. -/
def branch? : BranchCall α → Option (Branch α)
  | .elseIf condition items => some ⟨condition, items⟩
  | .otherwise _ => none

/-- The items of the branch without a condition that the call adds. -/
def elseItems? : BranchCall α → Option (List (ListItem α))
  | .elseIf _ _ => none
  | .otherwise items => some items

/-- Why a block of this condition refuses the call once it is closed. -/
def refusal (condition : Condition) : BranchCall α → BranchError
  | .elseIf late _ => .afterElse late
  | .otherwise _ => .secondElse condition

theorem isSome_elseItems? (call : BranchCall α) : call.elseItems?.isSome = call.closes := by
  cases call <;> rfl

end BranchCall

namespace Conditioned

/-- What comes of a call, and the block after it. -/
def call (block : Conditioned α) : BranchCall α → Except BranchError Unit × Conditioned α
  | .elseIf condition items => block.addElseIf condition items
  | .otherwise items => block.setElse items

/-- The block after a run of calls, those that are refused among them. -/
def afterCalls (block : Conditioned α) (calls : List (BranchCall α)) : Conditioned α :=
  calls.foldl (fun block c => (block.call c).2) block

/-- The calls of a run that are not refused. -/
def taken (block : Conditioned α) : List (BranchCall α) → List (BranchCall α)
  | [] => []
  | c :: calls =>
    match block.call c with
    | (.ok (), next) => c :: next.taken calls
    | (.error _, next) => next.taken calls

/-- What comes of a run that ends with the first call that is refused, and the block after it. -/
def callAll (block : Conditioned α) : List (BranchCall α) → Except BranchError Unit × Conditioned α
  | [] => (.ok (), block)
  | c :: calls =>
    match block.call c with
    | (.ok (), next) => next.callAll calls
    | (.error fault, next) => (.error fault, next)

theorem afterCalls_cons {block next : Conditioned α} {c : BranchCall α}
    (takes : block.call c = (.ok (), next)) (calls : List (BranchCall α)) :
    block.afterCalls (c :: calls) = next.afterCalls calls ∧
      block.taken (c :: calls) = c :: next.taken calls := by
  rw [afterCalls, List.foldl_cons, taken, takes]
  exact ⟨rfl, rfl⟩

theorem afterCalls_append (block : Conditioned α) (calls : List (BranchCall α))
    (c : BranchCall α) :
    block.afterCalls (calls ++ [c]) = ((block.afterCalls calls).call c).2 := by
  rw [afterCalls, List.foldl_append]
  rfl

/-! ## Steps -/

/-- An open block takes any call, and its branch comes behind the others. -/
theorem call_of_open {block : Conditioned α} (isOpen : block.elseItems = none)
    (c : BranchCall α) : block.call c = (.ok (),
      ⟨block.condition, block.items, block.elseIfs ++ c.branch?.toList, c.elseItems?⟩) := by
  obtain ⟨condition, items, elseIfs, elseItems⟩ := block
  cases isOpen
  cases c with
  | elseIf => rfl
  | otherwise =>
    rw [BranchCall.branch?, Option.toList_none, List.append_nil]
    rfl

/-- A closed block refuses any call, and the call leaves it as it is. -/
theorem call_of_closed {block : Conditioned α} (closed : block.elseItems.isSome = true)
    (c : BranchCall α) : block.call c = (.error (c.refusal block.condition), block) := by
  cases c with
  | elseIf => exact if_pos closed
  | otherwise => exact if_pos closed

/-! ## Runs -/

/-- A closed block stays as it is, and no call is taken. -/
theorem afterCalls_of_closed {block : Conditioned α} (closed : block.elseItems.isSome = true)
    (calls : List (BranchCall α)) : block.afterCalls calls = block ∧ block.taken calls = [] := by
  induction calls with
  | nil => exact ⟨rfl, rfl⟩
  | cons c calls ih =>
    rw [afterCalls, List.foldl_cons, taken, call_of_closed closed c]
    exact ih

/-- An open block keeps its condition, its items and its branches.  The branches of the calls that
are taken come behind these, and the items of the first call that closes the block are the last. -/
theorem afterCalls_of_open {block : Conditioned α} (isOpen : block.elseItems = none)
    (calls : List (BranchCall α)) :
    block.afterCalls calls = ⟨block.condition, block.items,
      block.elseIfs ++ (block.taken calls).filterMap BranchCall.branch?,
      calls.findSome? BranchCall.elseItems?⟩ := by
  induction calls generalizing block with
  | nil =>
    obtain ⟨condition, items, elseIfs, elseItems⟩ := block
    cases isOpen
    rw [taken, List.filterMap_nil, List.append_nil]
    rfl
  | cons c calls ih =>
    obtain ⟨after, added⟩ := afterCalls_cons (call_of_open isOpen c) calls
    rw [after, added, List.findSome?_cons]
    cases c with
    | elseIf late items =>
      have rest := @ih ⟨block.condition, block.items, block.elseIfs ++ [⟨late, items⟩], none⟩ rfl
      exact rest.trans (by rw [List.append_assoc]; rfl)
    | otherwise items =>
      obtain ⟨same, refused⟩ := @afterCalls_of_closed α
        ⟨block.condition, block.items, block.elseIfs ++ [], some items⟩ rfl calls
      refine same.trans ?_
      rw [BranchCall.branch?, Option.toList_none, BranchCall.elseItems?, List.filterMap_cons,
        refused]
      rfl

/-- Every call that is taken adds one branch. -/
theorem branchCount_afterCalls (block : Conditioned α) (calls : List (BranchCall α)) :
    (block.afterCalls calls).branchCount = block.branchCount + (block.taken calls).length := by
  induction calls generalizing block with
  | nil => rfl
  | cons c calls ih =>
    cases isOpen : block.elseItems with
    | none =>
      obtain ⟨after, added⟩ := afterCalls_cons (call_of_open isOpen c) calls
      rw [after, added, ih, List.length_cons]
      cases c <;> simp [branchCount, BranchCall.branch?, BranchCall.elseItems?, isOpen] <;> omega
    | some last =>
      have closed : block.elseItems.isSome = true := by rw [isOpen]; rfl
      obtain ⟨same, none⟩ := afterCalls_of_closed closed (c :: calls)
      rw [same, none]
      rfl

/-- Whether a new block is closed after a run of calls tells whether one of them was to close it. -/
theorem isSome_elseItems_afterCalls (condition : Condition) (items : List (ListItem α))
    (calls : List (BranchCall α)) :
    ((new condition items).afterCalls calls).elseItems.isSome = calls.any BranchCall.closes := by
  have closing : (fun c : BranchCall α => c.elseItems?.isSome) = BranchCall.closes :=
    funext BranchCall.isSome_elseItems?
  rw [afterCalls_of_open rfl, List.isSome_findSome?, closing]

/-- After any run of calls on a new block, the calls up to the first one that closes the block were
taken, each that follows was refused for being too late and changed nothing, and the block is what
it was made of with the branches of the calls that were taken. -/
theorem afterCalls_new (condition : Condition) (items : List (ListItem α))
    (calls : List (BranchCall α)) :
    (∀ before c after, calls = before ++ c :: after →
      let block := (new condition items).afterCalls before
      let next := (new condition items).afterCalls (before ++ [c])
      if before.any BranchCall.closes then
        block.call c = (.error (c.refusal condition), block) ∧ next = block
      else block.call c = (.ok (), next)) ∧
    let last := (new condition items).afterCalls calls
    let taken := (new condition items).taken calls
    last.condition = condition ∧ last.items = items ∧
      last.elseIfs = taken.filterMap BranchCall.branch? ∧
      last.elseItems = calls.findSome? BranchCall.elseItems? ∧
      last.branchCount = 1 + taken.length := by
  refine ⟨fun before c after _ => ?_, ?_⟩
  · have closed := isSome_elseItems_afterCalls condition items before
    have own : ((new condition items).afterCalls before).condition = condition := by
      rw [afterCalls_of_open rfl]
      rfl
    dsimp only
    rw [afterCalls_append]
    split
    · rename_i late
      have refused := call_of_closed (closed.trans late) c
      rw [own] at refused
      exact ⟨refused, by rw [refused]⟩
    · rename_i early
      rw [← closed, Option.not_isSome_iff_eq_none] at early
      rw [call_of_open early c]
  · have made := @afterCalls_of_open α (new condition items) rfl calls
    have count := branchCount_afterCalls (new condition items) calls
    rw [made] at count
    dsimp only
    rw [made]
    exact ⟨rfl, rfl, List.nil_append _, rfl, count⟩

-- A branch closes the block without items, too.
example (one two : Condition) : ((new one []).afterCalls [.otherwise [], .elseIf two []] :
    Conditioned α) = ⟨one, [], [], some []⟩ := rfl

end Conditioned

end AzurePipelines
