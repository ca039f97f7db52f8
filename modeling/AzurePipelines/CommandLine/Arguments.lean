/-!
# Arguments

The command `accessors` takes the path of a schema and the name of a record, and either writes
source or lists the parameters.  Options stand anywhere after the command: with their value in the
next argument, after an equals sign, or, for an option of one letter, right behind it.  After `--`
all arguments are taken as they are.
-/

namespace AzurePipelines.CommandLine

/-! ## Requests -/

/-- What `accessors` is asked to do. -/
structure Request where
  schema : String
  root : String
  /-- The file for the source, if it is not printed. -/
  output : Option String := none
  /-- The parameters are listed instead. -/
  list : Bool := false
deriving DecidableEq, Repr

/-- An option that has a value. -/
inductive ValueOption where
  | root
  | output
deriving DecidableEq, Repr

def ValueOption.name : ValueOption → String
  | root => "--root <NAME>"
  | output => "--output <FILE>"

/-- Why the arguments make no request. -/
inductive UsageFault where
  | noCommand
  | unknownCommand (name : String)
  | unexpected (argument : String)
  | missingValue (option : ValueOption)
  | emptyValue (argument : String)
  | repeated (option : String)
  | missing (argument : String)
  | listWithOutput
deriving DecidableEq, Repr

def UsageFault.message : UsageFault → String
  | noCommand => "a subcommand is required"
  | unknownCommand name => "unrecognized subcommand '" ++ name ++ "'"
  | unexpected argument => "unexpected argument '" ++ argument ++ "' found"
  | missingValue option => "a value is required for '" ++ option.name ++ "' but none was supplied"
  | emptyValue argument => "a value is required for '" ++ argument ++ "' but none was supplied"
  | repeated option => "the argument '" ++ option ++ "' cannot be used multiple times"
  | missing argument => "the required argument '" ++ argument ++ "' was not provided"
  | listWithOutput => "the argument '--list' cannot be used with '--output <FILE>'"

/-! ## Single arguments -/

/-- The text after another one at the start of a text. -/
def after? : List Char → List Char → Option (List Char)
  | [], text => some text
  | _ :: _, [] => none
  | c :: start, d :: text => if c = d then after? start text else none

/-- The value attached to an option that is written out: behind an equals sign. -/
def longValue? (text : List Char) : Option (Option String) :=
  match text with
  | [] => some none
  | '=' :: value => some (some (String.ofList value))
  | _ => none

/-- The value attached to an option of one letter: behind an equals sign, or right behind it. -/
def shortValue (text : List Char) : Option String :=
  match text with
  | [] => none
  | '=' :: value => some (String.ofList value)
  | value => some (String.ofList value)

/-- An argument by itself. -/
inductive Argument where
  | plain (text : String)
  | list
  | option (option : ValueOption) (value : Option String)
  | rest
  | unknown
deriving DecidableEq, Repr

/-- An argument is plain unless it starts with a hyphen; a hyphen alone is plain too. -/
def Argument.isPlain (text : List Char) : Bool := text.head? != some '-' || text == ['-']

/-- What an argument says by itself. -/
def Argument.ofText (text : String) : Argument :=
  let chars := text.toList
  if isPlain chars then .plain text
  else if text = "--" then .rest
  else if text = "--list" then .list
  else if let some value := (after? "--root".toList chars).bind longValue? then .option .root value
  else if let some value := (after? "--output".toList chars).bind longValue? then
    .option .output value
  else if let some text := after? "-o".toList chars then .option .output (shortValue text)
  else .unknown

/-! ## Lists of arguments -/

/-- What is known of a request so far. -/
structure Draft where
  schema : Option String := none
  root : Option String := none
  output : Option String := none
  list : Bool := false
deriving DecidableEq, Repr

namespace Draft

/-- Sets the path of the schema, which may not be empty. -/
def setSchema (draft : Draft) (path : String) : Except UsageFault Draft :=
  if draft.schema.isSome then .error (.unexpected path)
  else if path.isEmpty then .error (.emptyValue "<SCHEMA>")
  else .ok { draft with schema := some path }

/-- Sets the value of an option.  The path of a file may not be empty. -/
def setOption (draft : Draft) (value : String) : ValueOption → Except UsageFault Draft
  | .root =>
    if draft.root.isSome then .error (.repeated ValueOption.root.name)
    else .ok { draft with root := some value }
  | .output =>
    if draft.output.isSome then .error (.repeated ValueOption.output.name)
    else if value.isEmpty then .error (.emptyValue ValueOption.output.name)
    else .ok { draft with output := some value }

def setList (draft : Draft) : Except UsageFault Draft :=
  if draft.list then .error (.repeated "--list") else .ok { draft with list := true }

/-- The draft after more arguments. -/
def read (draft : Draft) : List String → Except UsageFault Draft
  | [] => .ok draft
  | text :: rest =>
    match Argument.ofText text with
    | .plain path => do (← draft.setSchema path).read rest
    | .list => do (← draft.setList).read rest
    | .option option (some value) => do (← draft.setOption value option).read rest
    | .option option none =>
      match rest with
      | [] => .error (.missingValue option)
      | value :: rest =>
        if Argument.isPlain value.toList then do (← draft.setOption value option).read rest
        else .error (.missingValue option)
    | .rest => rest.foldlM setSchema draft
    | .unknown => .error (.unexpected text)

/-- The request that a draft has become. -/
def finish (draft : Draft) : Except UsageFault Request :=
  match draft.schema, draft.root with
  | none, _ => .error (.missing "<SCHEMA>")
  | _, none => .error (.missing ValueOption.root.name)
  | some schema, some root =>
    if draft.list && draft.output.isSome then .error .listWithOutput
    else .ok { schema, root, output := draft.output, list := draft.list }

end Draft

/-- The request that the arguments of the program make. -/
def Request.ofArguments : List String → Except UsageFault Request
  | [] => .error .noCommand
  | "accessors" :: rest => do (← Draft.read {} rest).finish
  | command :: _ => .error (.unknownCommand command)

end AzurePipelines.CommandLine
