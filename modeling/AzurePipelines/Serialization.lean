import AzurePipelines.Config
import AzurePipelines.Pipeline.Fault
import AzurePipelines.Yaml.Layout

/-!
# Serialization

A document without faults has a text; of any other its first fault is reported, and there is no text
(`toYaml_eq_ok_iff`, `toYaml_eq_error_iff`).
-/

namespace AzurePipelines.Document

/-- The text of a document. -/
def toYaml (config : SerializerConfig) (document : Document) : Except Fault String :=
  match document.faults.head? with
  | some fault => .error fault
  | none => .ok (Yaml.render config.header config.blankLinesBetweenItems document.sections)

theorem toYaml_eq_ok_iff {config : SerializerConfig} {document : Document} {text : String} :
    document.toYaml config = .ok text ↔ document.faults = [] ∧
      text = Yaml.render config.header config.blankLinesBetweenItems document.sections := by
  unfold toYaml
  cases h : document.faults with
  | nil => simp [eq_comm]
  | cons fault rest => simp

theorem toYaml_eq_error_iff {config : SerializerConfig} {document : Document} {fault : Fault} :
    document.toYaml config = .error fault ↔ document.faults.head? = some fault := by
  unfold toYaml
  cases h : document.faults.head? with
  | none => simp
  | some first => simp

end AzurePipelines.Document
