import AzurePipelines.Schema.Accessors
import AzurePipelines.Schema.Names

/-!
# Generated code of accessors

Each group of accessors becomes a type without data: it has a method for every accessor, which gives
a parameter reference or the type of the group below, and below a parameter a method for the
parameter as a whole.  `AccessorGroup.declarations` lays out the types, and finds names that would
be given twice; `AccessorGroup.source` writes them as Rust.
-/

namespace AzurePipelines

/-! ## Declarations -/

/-- A method of a generated type. -/
inductive Method where
  /-- The parameter that the type stands for. -/
  | whole (path : String)
  | leaf (name path : String)
  /-- The type of the group below a parameter. -/
  | child (name path type : String)
deriving DecidableEq, Repr

/-- A generated type. -/
structure TypeDeclaration where
  record : String
  name : String
  methods : List Method
deriving DecidableEq, Repr

/-- The name of the type at a position: the names of the root record and of the members on the way
to it, with the same ending for all. -/
def typeName (stem : String) : String := stem ++ "Reference"

/-- The methods for members, and the stems of the types in use after them; `methods` and `stems` are
the names in use before. -/
def memberMethods (record stem : String) (methods stems : List String) :
    List Accessor → Except SchemaFault (List Method × List String)
  | [] => .ok ([], stems)
  | a :: rest =>
    let name := Names.methodName a.member
    let below := stem ++ Names.pascalCase a.member
    if name ∈ methods then .error (.repeatedMethod a.member record name)
    else if a.nested.isNone then do
      let (others, stems) ← memberMethods record stem (name :: methods) stems rest
      return (.leaf name a.reference.path :: others, stems)
    else if below ∈ stems then .error (.repeatedStruct a.reference.path (typeName below))
    else do
      let (others, stems) ← memberMethods record stem (name :: methods) (below :: stems) rest
      return (.child name a.reference.path (typeName below) :: others, stems)

mutual

/-- The types of a group and of all groups below it, and the stems in use after them.  A group below
a parameter has the path of the parameter. -/
def groupTypes (stem : String) (path : Option String) (stems : List String) :
    AccessorGroup → Except SchemaFault (List TypeDeclaration × List String)
  | ⟨record, members⟩ => do
    let own := path.toList.map Method.whole
    let (methods, stems) ←
      memberMethods record stem (own.map fun _ => "reference") stems members
    let (below, stems) ← memberTypes stem stems members
    return (⟨record, typeName stem, own ++ methods⟩ :: below, stems)

def memberTypes (stem : String) (stems : List String) :
    List Accessor → Except SchemaFault (List TypeDeclaration × List String)
  | [] => .ok ([], stems)
  | accessor :: rest => do
    let (here, stems) ← accessorTypes stem stems accessor
    let (others, stems) ← memberTypes stem stems rest
    return (here ++ others, stems)

def accessorTypes (stem : String) (stems : List String) :
    Accessor → Except SchemaFault (List TypeDeclaration × List String)
  | ⟨member, _, reference, nested⟩ =>
    nestedTypes (stem ++ Names.pascalCase member) reference.path stems nested

def nestedTypes (stem path : String) (stems : List String) :
    Option AccessorGroup → Except SchemaFault (List TypeDeclaration × List String)
  | none => .ok ([], stems)
  | some group => groupTypes stem (some path) stems group

end

/-- The types of the group, the root first and each before those below it. -/
def AccessorGroup.declarations (g : AccessorGroup) : Except SchemaFault (List TypeDeclaration) :=
  let stem := Names.pascalCase g.record
  (groupTypes stem none [stem] g).map (·.1)

/-! ## Text -/

/-- The expression that makes the reference to a path. -/
def referenceExpression (path : String) : String :=
  "ParameterReference::new(\"" ++ path ++
    "\").expect(\"accessor paths are validated when generated\")"

/-- A method with its comment, type and body. -/
def methodSource (comment name type body : String) : String :=
  "    /// " ++ comment ++ "\n    pub fn " ++ name ++ "(&self) -> " ++ type ++ " \x7b\n        " ++
    body ++ "\n    \x7d\n"

def Method.source : Method → String
  | .whole path =>
    methodSource ("The whole `" ++ path ++ "` parameter") "reference" "ParameterReference"
      (referenceExpression path)
  | .leaf name path =>
    methodSource ("`" ++ path ++ "`") name "ParameterReference" (referenceExpression path)
  | .child name path type => methodSource ("`" ++ path ++ "`") name type type

def TypeDeclaration.source (d : TypeDeclaration) : String :=
  "\n/// Parameters of record `" ++ d.record ++ "`\n#[derive(Debug, Clone, Copy, Default)]\n" ++
    "pub struct " ++ d.name ++ ";\n\nimpl " ++ d.name ++ " \x7b\n" ++
    "\n".intercalate (d.methods.map Method.source) ++ "\x7d\n"

/-- The generated file. -/
def AccessorGroup.source (g : AccessorGroup) : Except SchemaFault String := do
  let declarations ← g.declarations
  return "// Parameter accessors for `" ++ g.record ++
    "`\n// Generated by azpipe; do not edit by hand\n\nuse pipeline_core::ParameterReference;\n" ++
    String.join (declarations.map TypeDeclaration.source)

end AzurePipelines
