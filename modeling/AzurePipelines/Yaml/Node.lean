import AzurePipelines.Scalar

/-!
# Document nodes

A `Node` is a scalar, a sequence or a mapping, in the order in which it is written.  Nothing in the
type keeps a mapping from repeating a key; `Node.KeysDistinct` says of a node that none of its
mappings does, at any depth.
-/

namespace AzurePipelines.Yaml

/-- A node of a document. -/
inductive Node where
  | scalar (value : Scalar)
  | sequence (items : List Node)
  | mapping (entries : List (String × Node))

namespace Node

/-- A node of plain text. -/
def text (s : String) : Node := .scalar (.string s)

/-- No mapping at any depth of the node repeats a key. -/
inductive KeysDistinct : Node → Prop
  | scalar (value : Scalar) : KeysDistinct (.scalar value)
  | sequence {items : List Node} :
    (∀ item ∈ items, KeysDistinct item) → KeysDistinct (.sequence items)
  | mapping {entries : List (String × Node)} :
    (entries.map Prod.fst).Nodup → (∀ entry ∈ entries, KeysDistinct entry.2) →
    KeysDistinct (.mapping entries)

end Node

end AzurePipelines.Yaml
