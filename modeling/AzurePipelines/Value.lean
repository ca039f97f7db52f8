import AzurePipelines.OrderedMap
import AzurePipelines.Yaml.Node

/-!
# Values

A `Value` fills a field that takes data of any shape: an input of a task, a parameter of a template,
the default of a declared parameter.  It is a document node in which no mapping repeats a key, and
is built from scalars, from lists of values and from ordered maps of values.
-/

namespace AzurePipelines

/-- A scalar, a sequence or a mapping, in which no mapping repeats a key. -/
structure Value where
  node : Yaml.Node
  distinct : node.KeysDistinct

namespace Value

def scalar (s : Scalar) : Value := ⟨.scalar s, .scalar s⟩

def sequence (items : List Value) : Value where
  node := .sequence (items.map node)
  distinct := .sequence (by
    intro item h
    obtain ⟨value, _, rfl⟩ := List.mem_map.1 h
    exact value.distinct)

def text (s : String) : Value := scalar (.string s)

end Value

namespace OrderedMap

/-- The mapping node with the entries of the map in their order. -/
def node (m : OrderedMap Value) : Yaml.Node :=
  .mapping (m.entries.map fun entry => (entry.1, entry.2.node))

theorem keysDistinct_node (m : OrderedMap Value) : m.node.KeysDistinct := by
  refine .mapping ?_ ?_
  · rw [List.map_map]
    exact m.distinct
  · intro entry h
    obtain ⟨pair, _, rfl⟩ := List.mem_map.1 h
    exact pair.2.distinct

end OrderedMap

def Value.mapping (m : OrderedMap Value) : Value := ⟨m.node, m.keysDistinct_node⟩

end AzurePipelines
