import AzurePipelines.Pipeline.Sections
import Mathlib

/-!
# Entries of mappings

What stands at which key of the mappings that a document is written as: a builder of fields has an
entry at its own key alone, and there what it is given (`Fields.mem_optionalNode`,
`Fields.lookup_optionalNode` and their like).  The nodes of a list are those of its entries
(`forall_mem_listNodes_iff`), and the keys of branches tell which branch it is and on which
condition (`ifKey_injective`, `ifKey_ne_elseIfKey`).
-/

namespace AzurePipelines

open Yaml (Node)

/-! ## Fields -/

namespace Fields

variable {key other : String} {n m : Node}

@[simp] theorem mem_node : (other, n) ∈ Fields.node key m ↔ other = key ∧ m = n := by
  simp [node, eq_comm (a := n)]

@[simp] theorem mem_text {value : String} :
    (other, n) ∈ Fields.text key value ↔ other = key ∧ .text value = n := by
  simp [text, eq_comm (a := n)]

@[simp] theorem mem_optionalNode {given : Option Node} :
    (other, n) ∈ optionalNode key given ↔ other = key ∧ given = some n := by
  cases given with
  | none => simp [optionalNode]
  | some m => simp [optionalNode, eq_comm (a := n)]

@[simp] theorem mem_optionalText {value : Option String} :
    (other, n) ∈ optionalText key value ↔ other = key ∧ value.map .text = some n :=
  mem_optionalNode

@[simp] theorem mem_optionalBoolean {value : Option Bool} :
    (other, n) ∈ optionalBoolean key value ↔
      other = key ∧ value.map (fun b => .scalar (.boolean b)) = some n :=
  mem_optionalNode

@[simp] theorem mem_optionalNumber {value : Option Nat} :
    (other, n) ∈ optionalNumber key value ↔
      other = key ∧ value.map (fun (k : Nat) => .scalar (.integer k)) = some n :=
  mem_optionalNode

@[simp] theorem mem_flag {value : Bool} :
    (other, n) ∈ flag key value ↔ other = key ∧ value = true ∧ .scalar (.boolean true) = n := by
  cases value <;> simp [flag]

@[simp] theorem mem_items {nodes : List Node} :
    (other, n) ∈ Fields.items key nodes ↔ other = key ∧ nodes ≠ [] ∧ .sequence nodes = n := by
  cases nodes with
  | nil => simp [Fields.items]
  | cons first others => simp [Fields.items, eq_comm (a := n)]

@[simp] theorem mem_map {values : OrderedMap Value} :
    (other, n) ∈ Fields.map key values ↔
      other = key ∧ values.isEmpty = false ∧ values.node = n := by
  cases empty : values.isEmpty with
  | true => simp [Fields.map, empty]
  | false => simp [Fields.map, empty, eq_comm (a := n)]

variable {α : Type} [Listed α]

@[simp] theorem mem_list {entries : List (ListItem α)} :
    (other, n) ∈ Fields.list key entries ↔
      other = key ∧ listNodes entries ≠ [] ∧ .sequence (listNodes entries) = n :=
  mem_items

@[simp] theorem mem_ownList {entries : List (ListItem α)} :
    (other, n) ∈ Fields.ownList key entries ↔
      other = key ∧ .sequence (listNodes entries) = n :=
  mem_node

end Fields

/-! ## Fields by their keys -/

/-- A sequence, if there is anything in it. -/
def filledSequence (nodes : List Node) : Option Node :=
  if nodes.isEmpty then none else some (.sequence nodes)

/-- A mapping, if there is anything in it. -/
def OrderedMap.filledNode (values : OrderedMap Value) : Option Node :=
  if values.isEmpty then none else some values.node

/-- A flag, if it is on. -/
def raisedFlag (value : Bool) : Option Node :=
  if value then some (.scalar (.boolean true)) else none

namespace Fields

variable {key other : String}

@[simp] theorem lookup_node (n : Node) :
    (Fields.node key n).lookup other = if other = key then some n else none := by
  by_cases same : other = key
  · simp [node, same]
  · simp [node, same, List.lookup_cons, beq_eq_false_iff_ne.2 same]

@[simp] theorem lookup_text (value : String) :
    (Fields.text key value).lookup other = if other = key then some (.text value) else none :=
  lookup_node _

@[simp] theorem lookup_optionalNode (given : Option Node) :
    (optionalNode key given).lookup other = if other = key then given else none := by
  cases given with
  | none => simp [optionalNode]
  | some n => exact lookup_node n

@[simp] theorem lookup_optionalText (value : Option String) :
    (optionalText key value).lookup other = if other = key then value.map .text else none :=
  lookup_optionalNode _

@[simp] theorem lookup_optionalBoolean (value : Option Bool) :
    (optionalBoolean key value).lookup other =
      if other = key then value.map (fun b => .scalar (.boolean b)) else none :=
  lookup_optionalNode _

@[simp] theorem lookup_optionalNumber (value : Option Nat) :
    (optionalNumber key value).lookup other =
      if other = key then value.map (fun (n : Nat) => .scalar (.integer n)) else none :=
  lookup_optionalNode _

@[simp] theorem lookup_flag (value : Bool) :
    (flag key value).lookup other = if other = key then raisedFlag value else none := by
  cases value <;> simp [flag, raisedFlag]

@[simp] theorem lookup_items (nodes : List Node) :
    (Fields.items key nodes).lookup other = if other = key then filledSequence nodes else none := by
  cases nodes with
  | nil => simp [Fields.items, filledSequence]
  | cons first others => exact lookup_node _

@[simp] theorem lookup_map (values : OrderedMap Value) :
    (Fields.map key values).lookup other = if other = key then values.filledNode else none := by
  cases empty : values.isEmpty with
  | true => simp [Fields.map, OrderedMap.filledNode, empty]
  | false =>
    simp only [Fields.map, OrderedMap.filledNode, empty, Bool.false_eq_true, if_false]
    exact lookup_node _

variable {α : Type} [Listed α]

@[simp] theorem lookup_list (entries : List (ListItem α)) :
    (Fields.list key entries).lookup other =
      if other = key then filledSequence (listNodes entries) else none :=
  lookup_items _

@[simp] theorem lookup_ownList (entries : List (ListItem α)) :
    (Fields.ownList key entries).lookup other =
      if other = key then some (.sequence (listNodes entries)) else none :=
  lookup_node _

end Fields

/-! ## Keys of branches -/

/-- The key of a branch starts with what opens an expression. -/
def IsBranchKey (key : String) : Prop := "$\x7b\x7b ".toList <+: key.toList

instance (key : String) : Decidable (IsBranchKey key) :=
  inferInstanceAs (Decidable ("$\x7b\x7b ".toList <+: key.toList))

theorem isBranchKey_ifKey (c : Condition) : IsBranchKey (ifKey c) :=
  ⟨"if ".toList ++ c.text.toList ++ " \x7d\x7d".toList, by simp [ifKey]⟩

theorem isBranchKey_elseIfKey (c : Condition) : IsBranchKey (elseIfKey c) :=
  ⟨"elseif ".toList ++ c.text.toList ++ " \x7d\x7d".toList, by simp [elseIfKey]⟩

theorem isBranchKey_elseKey : IsBranchKey elseKey := by decide

theorem ifKey_injective {c d : Condition} (same : ifKey c = ifKey d) : c = d := by
  have texts := congrArg String.toList same
  simp only [ifKey, String.toList_append, List.append_cancel_left_eq,
    List.append_cancel_right_eq, String.toList_inj] at texts
  exact Condition.mk.injEq _ _ ▸ texts

theorem elseIfKey_injective {c d : Condition} (same : elseIfKey c = elseIfKey d) : c = d := by
  have texts := congrArg String.toList same
  simp only [elseIfKey, String.toList_append, List.append_cancel_left_eq,
    List.append_cancel_right_eq, String.toList_inj] at texts
  exact Condition.mk.injEq _ _ ▸ texts

theorem ifKey_ne_elseIfKey (c d : Condition) : ifKey c ≠ elseIfKey d := by
  intro same
  have texts := congrArg String.toList same
  simp [ifKey, elseIfKey] at texts

theorem ifKey_ne_elseKey (c : Condition) : ifKey c ≠ elseKey := by
  intro same
  have texts := congrArg String.toList same
  simp [ifKey, elseKey] at texts

theorem elseIfKey_ne_elseKey (c : Condition) : elseIfKey c ≠ elseKey := by
  intro same
  have texts := congrArg String.toList same
  simp [elseIfKey, elseKey] at texts

/-! ## Lists -/

section Lists

variable {α : Type} [Listed α] {holds : Node → Prop}

theorem listNodes_eq_flatMap (entries : List (ListItem α)) :
    listNodes entries = entries.flatMap ListItem.nodes := by
  induction entries with
  | nil => simp [listNodes]
  | cons entry entries ih => simp [listNodes, ih]

theorem branchNodes_eq_map (branches : List (Branch α)) :
    branchNodes branches = branches.map Branch.node := by
  induction branches with
  | nil => simp [branchNodes]
  | cons branch branches ih => simp [branchNodes, ih]

/-- What holds of all nodes of a list holds of all nodes of its entries. -/
theorem forall_mem_listNodes_iff {entries : List (ListItem α)} :
    (∀ node ∈ listNodes entries, holds node) ↔
      ∀ entry ∈ entries, ∀ node ∈ entry.nodes, holds node := by
  rw [listNodes_eq_flatMap, List.forall_mem_flatMap]

end Lists

end AzurePipelines
