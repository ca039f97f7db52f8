import AzurePipelines.Proofs.Pipeline.DistinctKeys
import AzurePipelines.Serialization
import Mathlib

/-!
# Implicit keys

A key that no question mark introduces has to be short, and to stand on one line with its colon.
Every key of a document that has a text stands on one line of it.  The keys of records are short;
those that are given are as long as they are given, and a condition stands in the key of its branch
as it is.  So all keys are short exactly if all given keys are (`Document.shortKeys_iff`), and there
are documents where they are not (`Document.wideCondition_long`).
-/

namespace AzurePipelines

open Yaml (Node IsShortKey keyLimit)

/-! ## Long and short keys -/

theorem KnownKeys.isShortKey {keys : List String} (h : KnownKeys keys) :
    ∀ key ∈ keys, IsShortKey key :=
  fun key member => Yaml.isShortKey_of_length_le ((h.2 key member).trans (by decide))

/-- The key of a branch is longer than its condition. -/
theorem length_condition_lt_length_inline (c : Condition) :
    c.text.length < (Yaml.inline (ifKey c).toList).length := by
  have around : c.text.length < (ifKey c).length := by
    have opened : 0 < ("$\x7b\x7b if ").length := by decide
    rw [ifKey, String.length_append, String.length_append]
    omega
  have written := Yaml.length_le_length_inline (ifKey c).toList
  rw [String.length_toList] at written
  omega

/-- The keys of a node are short exactly if those that it is given are. -/
theorem TreeNode.forall_isShortKey_iff (node : TreeNode) :
    (∀ keys ∈ node.ownKeyLists, ∀ key ∈ keys, IsShortKey key) ↔
      ∀ keys ∈ node.givenKeyLists, ∀ key ∈ keys, IsShortKey key := by
  constructor
  · intro short keys member
    exact short keys (node.addsKnown.subset member)
  · intro short keys member
    rcases node.addsKnown.known keys member with given | known
    · exact short keys given
    · exact known.isShortKey

namespace Document

/-- **Every key of a document that has a text stands on one line of it, and all of them are short
exactly if those are that the nodes of its tree are given.** -/
theorem shortKeys_iff {config : SerializerConfig} {document : Document} {text : String}
    (written : document.toYaml config = .ok text) :
    (∀ keys ∈ (Node.mapping document.sections).keyLists, ∀ key ∈ keys,
        ∃ line ∈ Yaml.linesRead text.toList, Yaml.StandsAsKey key line) ∧
      ((∀ keys ∈ (Node.mapping document.sections).keyLists, ∀ key ∈ keys, IsShortKey key) ↔
        ∀ node, (TreeNode.document document).Reaches node →
          ∀ keys ∈ node.givenKeyLists, ∀ key ∈ keys, IsShortKey key) := by
  obtain ⟨_, rfl⟩ := toYaml_eq_ok_iff.1 written
  constructor
  · intro keys member key inKeys
    apply Yaml.exists_mem_linesRead_render
    exact List.mem_flatten_of_mem member inKeys
  · constructor
    · intro short node reached
      refine node.forall_isShortKey_iff.1 fun keys own => ?_
      exact short keys (mem_keyLists_iff.2 ⟨node, reached, own⟩)
    · intro short keys member
      obtain ⟨node, reached, own⟩ := mem_keyLists_iff.1 member
      exact node.forall_isShortKey_iff.2 (short node reached) keys own

/-- A template with one step in a block. -/
def conditionedTemplate (c : Condition) : Document :=
  .template [] (.steps [.block ⟨c, [.item { action := .script ⟨"make", none, false⟩ }], [], none⟩])

/-- A condition with a colon, for which the key of the branch is written in quotes. -/
def colonCondition : Condition := ⟨"eq('a: b', 'c')"⟩

theorem shortKeys_iff_colonCondition :
    (conditionedTemplate colonCondition).toYaml {} =
        .ok "steps:\n- '$\x7b\x7b if eq(''a: b'', ''c'') \x7d\x7d':\n  - script: make\n" ∧
      (∀ keys ∈ (Node.mapping (conditionedTemplate colonCondition).sections).keyLists,
        ∀ key ∈ keys, ∃ line ∈ Yaml.linesRead
          "steps:\n- '$\x7b\x7b if eq(''a: b'', ''c'') \x7d\x7d':\n  - script: make\n".toList,
          Yaml.StandsAsKey key line) ∧
        ((∀ keys ∈ (Node.mapping (conditionedTemplate colonCondition).sections).keyLists,
            ∀ key ∈ keys, IsShortKey key) ↔
          ∀ node, (TreeNode.document (conditionedTemplate colonCondition)).Reaches node →
            ∀ keys ∈ node.givenKeyLists, ∀ key ∈ keys, IsShortKey key) := by
  have written : (conditionedTemplate colonCondition).toYaml {} =
      .ok "steps:\n- '$\x7b\x7b if eq(''a: b'', ''c'') \x7d\x7d':\n  - script: make\n" :=
    toYaml_eq_ok_iff.2 ⟨rfl, by decide⟩
  exact ⟨written, shortKeys_iff written⟩

/-- The template has a text, whatever its condition is, and the key of its block is long where the
condition is. -/
theorem wideCondition_long :
    ∃ c : Condition, (∃ text, (conditionedTemplate c).toYaml {} = .ok text) ∧
      ∃ keys ∈ (Node.mapping (conditionedTemplate c).sections).keyLists,
        ∃ key ∈ keys, ¬IsShortKey key := by
  refine ⟨⟨String.ofList (List.replicate 1100 'a')⟩, ⟨_, toYaml_eq_ok_iff.2 ⟨rfl, rfl⟩⟩, ?_⟩
  refine ⟨[ifKey _], List.mem_cons_of_mem _ (List.mem_cons_self), _, List.mem_cons_self, ?_⟩
  have wide := length_condition_lt_length_inline ⟨String.ofList (List.replicate 1100 'a')⟩
  rw [String.length_ofList, List.length_replicate] at wide
  unfold IsShortKey keyLimit
  omega

end Document

end AzurePipelines
