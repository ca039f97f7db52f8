import AzurePipelines.Schema.Basic
import AzurePipelines.Yaml.Reader

/-!
# Reading schemas

A schema is a document with a list of records.  Records and members need a name, and fields of other
names are ignored.
-/

namespace AzurePipelines

open Yaml (Content ReadFault)

def MemberKind.ofContent (content : Content) : Except ReadFault MemberKind :=
  content.asText.map MemberKind.ofText

def Member.ofContent (content : Content) : Except ReadFault Member := do
  let fields ← content.asFields ["name", "alias", "type", "synthesized"]
  return {
    name := ← fields.require "name" Content.asText
    parameterName := ← fields.get "alias" none (Content.asOptional Content.asText)
    kind := ← fields.get "type" .string MemberKind.ofContent
    synthesized := ← fields.get "synthesized" false Content.asBoolean }

def Record.ofContent (content : Content) : Except ReadFault Record := do
  let fields ← content.asFields ["name", "base", "members"]
  return {
    name := ← fields.require "name" Content.asText
    base := ← fields.get "base" none (Content.asOptional Content.asText)
    members := ← fields.get "members" [] (Content.asList Member.ofContent) }

def Schema.ofContent (content : Content) : Except ReadFault Schema := do
  let fields ← content.asFields ["records"]
  return { records := ← fields.get "records" [] (Content.asList Record.ofContent) }

/-- The schema that a text holds. -/
def Schema.parse (text : String) : Except SchemaFault Schema :=
  match Content.parse text >>= Schema.ofContent with
  | .ok schema => .ok schema
  | .error fault => .error (.unreadable fault.message)

end AzurePipelines
