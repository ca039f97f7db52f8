/-!
# Content of documents

What a document says before its scalars are resolved, and the ways to look at it.  A scalar keeps
its text and whether it was written without quotes, because only then can it stand for a boolean or
for nothing at all.  As a text every scalar is taken as it is written, so that `1` and `null` are
texts where texts are asked for.
-/

namespace AzurePipelines.Yaml

/-! ## Content and faults -/

/-- The content of a document or of a part of it. -/
inductive Content where
  | scalar (plain : Bool) (text : String)
  | sequence (items : List Content)
  | mapping (entries : List (Content × Content))

/-- The content where nothing is written. -/
def Content.nothing : Content := .scalar true ""

/-- What was asked for where something else is written. -/
inductive Shape where
  | text
  | boolean
  | list
  | fields
deriving DecidableEq, Repr

def Shape.name : Shape → String
  | .text => "a text"
  | .boolean => "a boolean"
  | .list => "a list"
  | .fields => "a mapping from texts"

/-- Why a document cannot be read, or not as what was asked for. -/
inductive ReadFault where
  | forbiddenCharacter (character : Char)
  | unexpected (line column : Nat)
  | malformedScalar (line column : Nat)
  | severalDocuments
  | expected (shape : Shape)
  | missing (field : String)
  | repeated (field : String)
deriving DecidableEq, Repr

/-- The text of a place, where the first line and column count as one. -/
def placeText (line column : Nat) : String :=
  "line " ++ toString (line + 1) ++ ", column " ++ toString (column + 1)

def ReadFault.message : ReadFault → String
  | .forbiddenCharacter c => "the character with code " ++ toString c.toNat ++ " is not allowed"
  | .unexpected line column => "unexpected text at " ++ placeText line column
  | .malformedScalar line column => "malformed scalar at " ++ placeText line column
  | .severalDocuments => "more than one document"
  | .expected shape => "expected " ++ shape.name
  | .missing field => "missing field '" ++ field ++ "'"
  | .repeated field => "field '" ++ field ++ "' is given more than once"

namespace Content

/-! ## Views -/

/-- The text of a scalar, however it is written. -/
def asText : Content → Except ReadFault String
  | .scalar _ text => .ok text
  | _ => .error (.expected .text)

/-- A boolean is one of six words without quotes. -/
def asBoolean : Content → Except ReadFault Bool
  | .scalar true text =>
    if text ∈ ["true", "True", "TRUE"] then .ok true
    else if text ∈ ["false", "False", "FALSE"] then .ok false
    else .error (.expected .boolean)
  | _ => .error (.expected .boolean)

/-- The content is one of the five ways to say nothing. -/
def isNull : Content → Bool
  | .scalar true text => text ∈ ["", "~", "null", "Null", "NULL"]
  | _ => false

/-- What the content says, unless it says nothing. -/
def asOptional {α : Type} (read : Content → Except ReadFault α) (content : Content) :
    Except ReadFault (Option α) :=
  if content.isNull then .ok none else (read content).map some

/-- The items of a sequence; where nothing is written there are none. -/
def asList {α : Type} (read : Content → Except ReadFault α) : Content → Except ReadFault (List α)
  | .sequence items => items.mapM read
  | .scalar true "" => .ok []
  | _ => .error (.expected .list)

end Content

/-! ## Fields -/

/-- The entries of a mapping whose keys are texts. -/
structure Fields where
  entries : List (String × Content)

/-- The fields of a mapping, of which the known ones occur once at most; where nothing is written
there are none. -/
def Content.asFields (known : List String) : Content → Except ReadFault Fields
  | .mapping entries => do
    let named ← entries.mapM fun (key, value) => return (← key.asText, value)
    match known.find? fun name => 1 < named.countP (·.1 == name) with
    | some name => .error (.repeated name)
    | none => .ok ⟨named⟩
  | .scalar true "" => .ok ⟨[]⟩
  | _ => .error (.expected .fields)

namespace Fields

/-- What a field says, or a default where it is not given. -/
def get {α : Type} (fields : Fields) (name : String) (default : α)
    (read : Content → Except ReadFault α) : Except ReadFault α :=
  match fields.entries.lookup name with
  | some content => read content
  | none => .ok default

/-- What a field says that has to be given. -/
def require {α : Type} (fields : Fields) (name : String) (read : Content → Except ReadFault α) :
    Except ReadFault α :=
  match fields.entries.lookup name with
  | some content => read content
  | none => .error (.missing name)

end Fields

end AzurePipelines.Yaml
