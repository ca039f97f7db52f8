import AzurePipelines.Reference

/-!
# Schemas of parameters

A schema declares record types for the parameters of a pipeline.  A record has members, and may have
a base whose members it inherits after its own.  The type of a member is one of four built-in types
or another record, so that records contain each other, and a schema can go wrong in ways that only
show when it is followed: `SchemaFault` lists them.
-/

namespace AzurePipelines

/-! ## Records -/

/-- The type of a member. -/
inductive MemberKind where
  | string
  | number
  | boolean
  | object
  | record (name : String)
deriving DecidableEq, Repr

/-- Every text names a type: four texts name the built-in ones, and all others name records. -/
def MemberKind.ofText : String → MemberKind
  | "string" => .string
  | "number" => .number
  | "boolean" => .boolean
  | "object" => .object
  | name => .record name

def MemberKind.text : MemberKind → String
  | .string => "string"
  | .number => "number"
  | .boolean => "boolean"
  | .object => "object"
  | .record name => name

/-- A member of a record. -/
structure Member where
  name : String
  /-- The name of the parameter, where it is not the name of the member. -/
  parameterName : Option String := none
  kind : MemberKind := .string
  /-- The member is made by a compiler and is not a parameter. -/
  synthesized : Bool := false
deriving DecidableEq, Repr

/-- The name of the parameter. -/
def Member.serializedName (m : Member) : String := m.parameterName.getD m.name

/-- A record type. -/
structure Record where
  name : String
  base : Option String := none
  members : List Member := []
deriving DecidableEq, Repr

/-- The record types of the parameters of a pipeline. -/
structure Schema where
  records : List Record := []
deriving DecidableEq, Repr

/-- The first record of a name. -/
def Schema.record? (s : Schema) (name : String) : Option Record :=
  s.records.find? (·.name == name)

theorem Schema.mem_of_record?_eq_some {s : Schema} {name : String} {r : Record}
    (h : s.record? name = some r) : r ∈ s.records ∧ r.name = name :=
  ⟨List.mem_of_find?_eq_some h, by simpa using List.find?_some h⟩

/-! ## Faults -/

/-- What is wrong with a schema, or with the names that would be made of it. -/
inductive SchemaFault where
  | unreadable (reason : String)
  | repeatedRecord (name : String)
  | unknownRecord (name : String)
  /-- The base of the last record of the chain is a record of the chain. -/
  | inheritanceCycle (chain : List String) (again : String)
  /-- The record is the type of a member somewhere below itself. -/
  | containmentCycle (record : String) (through : List String)
  | repeatedMember (record serialized : String)
  | repeatedMethod (member record method : String)
  | repeatedStruct (path struct : String)
deriving DecidableEq, Repr

def SchemaFault.reason : SchemaFault → String
  | unreadable reason => "failed to parse schema: " ++ reason
  | repeatedRecord name => "record '" ++ name ++ "' is declared more than once"
  | unknownRecord name => "unknown record '" ++ name ++ "'"
  | inheritanceCycle chain again =>
    "inheritance cycle: " ++ " -> ".intercalate chain ++ " -> " ++ again
  | containmentCycle record through =>
    "record '" ++ record ++ "' contains itself through " ++ " -> ".intercalate through
  | repeatedMember record serialized =>
    "record '" ++ record ++ "' has more than one member serialized as '" ++ serialized ++ "'"
  | repeatedMethod member record method =>
    "member '" ++ member ++ "' of record '" ++ record ++ "' generates the method `" ++ method ++
      "` twice"
  | repeatedStruct path struct =>
    "parameter '" ++ path ++ "' generates the struct `" ++ struct ++ "` twice"

def SchemaFault.message (f : SchemaFault) : String := "invalid parameters schema: " ++ f.reason

/-- A schema at fault, or a member whose name is no segment of a path. -/
inductive SchemaError where
  | fault (fault : SchemaFault)
  | reference (error : ReferenceError)
deriving DecidableEq, Repr

def SchemaError.message : SchemaError → String
  | .fault f => f.message
  | .reference e => e.message

end AzurePipelines
