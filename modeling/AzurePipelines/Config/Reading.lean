import AzurePipelines.Config
import AzurePipelines.Yaml.Reader

/-!
# Reading configurations

A configuration is a document of fields that all have defaults.  Fields of other names are ignored.
-/

namespace AzurePipelines

open Yaml (Content ReadFault)

def SerializerConfig.ofContent (content : Content) : Except ReadFault SerializerConfig := do
  let fields ← content.asFields ["blankLinesBetweenItems", "header"]
  return {
    blankLinesBetweenItems := ← fields.get "blankLinesBetweenItems" true Content.asBoolean
    header := ← fields.get "header" [] (Content.asList Content.asText) }

def PublishConfig.ofContent (content : Content) : Except ReadFault PublishConfig := do
  let fields ← content.asFields ["serializer", "failIfChanged"]
  return {
    serializer := ← fields.get "serializer" {} SerializerConfig.ofContent
    failIfChanged := ← fields.get "failIfChanged" false Content.asBoolean }

/-- The configuration that a text holds. -/
def PublishConfig.parse (text : String) : Except ReadFault PublishConfig := do
  PublishConfig.ofContent (← Content.parse text)

end AzurePipelines
