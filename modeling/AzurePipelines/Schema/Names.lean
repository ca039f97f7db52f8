/-!
# Names of generated code

The members of a record become methods and types of generated code.  A name is cut into words: at
every character that is no ASCII letter or digit, which is dropped, and before a capital letter that
follows a small letter or a digit, or that starts a word after a run of capitals.  The words are put
together again in small letters with underscores for a method, and capitalised for a type.
-/

namespace AzurePipelines.Names

/-! ## Words -/

/-- A word starts at the character, between its two neighbours. -/
def startsWord (previous : Option Char) (c : Char) (next : Option Char) : Bool :=
  match previous with
  | none => false
  | some p =>
    c.isUpper && (p.isLower || p.isDigit || (p.isUpper && next.any Char.isLower))

/-- The words of a text, where the first component is the part of it that goes on with a word that
ends in `previous`. -/
def wordsAfter (previous : Option Char) : List Char → List Char × List (List Char)
  | [] => ([], [])
  | c :: rest =>
    let (more, words) := wordsAfter (some c) rest
    if !c.isAlphanum then ([], if more.isEmpty then words else more :: words)
    else if startsWord previous c rest.head? then ([], (c :: more) :: words)
    else (c :: more, words)

/-- The words of a text. -/
def words (text : List Char) : List (List Char) :=
  let (first, rest) := wordsAfter none text
  if first.isEmpty then rest else first :: rest

/-! ## Identifiers -/

/-- The words that may not stand as the name of a method. -/
def reservedWords : List String :=
  ["as", "async", "await", "break", "const", "continue", "crate", "dyn", "else", "enum", "extern",
    "false", "fn", "for", "if", "impl", "in", "let", "loop", "match", "mod", "move", "mut", "pub",
    "ref", "return", "static", "struct", "trait", "true", "type", "unsafe", "use", "where",
    "while", "abstract", "become", "box", "do", "final", "macro", "override", "priv", "try",
    "typeof", "unsized", "virtual", "yield"]

/-- The words in small letters with underscores between them; what would be empty or start with a
digit has an underscore in front. -/
def snakeCase (text : List Char) : List Char :=
  let name := ['_'].intercalate ((words text).map (·.map Char.toLower))
  match name with
  | [] => ['_']
  | c :: _ => if c.isDigit then '_' :: name else name

/-- The name of the method for a member; a reserved word is marked as a name. -/
def methodName (member : String) : String :=
  let name := String.ofList (snakeCase member.toList)
  if reservedWords.contains name then "r#" ++ name else name

/-- A word with its first letter as a capital and all others small. -/
def capitalised : List Char → List Char
  | [] => []
  | c :: rest => c.toUpper :: rest.map Char.toLower

/-- The words capitalised, with nothing between them. -/
def pascalCase (name : String) : String :=
  String.ofList ((words name.toList).flatMap capitalised)

example : (["DotnetVersion", "runTests", "run-tests", "HTTPServer", "type", "2fa", "é"].map
    methodName) =
      ["dotnet_version", "run_tests", "run_tests", "http_server", "r#type", "_2fa", "_"] := by
  decide +kernel
example : (["BuildParameters", "deploy_settings"].map pascalCase) =
    ["BuildParameters", "DeploySettings"] := by decide +kernel

end AzurePipelines.Names
