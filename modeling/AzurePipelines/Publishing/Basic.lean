import AzurePipelines.Serialization

/-!
# Publishing

Publishing brings the text of a target up to date with a document.  The text is made before the
target is looked at, and a target is written only when it differs, so that a failure leaves every
target as it was; a list of definitions is published one after another up to the first failure.

Where the texts are kept is the business of a `Sink`, whose state `σ` every operation takes and
returns.
-/

namespace AzurePipelines

/-! ## Targets -/

/-- What the path of a target is relative to. -/
inductive TargetBase where
  | repositoryRoot
  | callerDirectory
deriving DecidableEq, Repr

/-- Where a document is kept. -/
structure Target where
  path : String
  base : TargetBase := .repositoryRoot
deriving DecidableEq, Repr

/-- A document and its target.  There is no document if a path in it is not a reference. -/
structure Definition where
  target : Target
  document : Except ReferenceError Document

/-! ## Faults and outcomes -/

/-- Why a target is not up to date. -/
inductive PublishFault where
  | reference (error : ReferenceError)
  | document (fault : Fault)
  | access (path : String)
  | noRepository (caller : String)
  | stale (location : String)

def PublishFault.message : PublishFault → String
  | reference e => "Serialization failed: " ++ e.message
  | document f => "Serialization failed: " ++ f.message
  | access path => "IO error on " ++ path
  | noRepository caller => "No git repository found above " ++ caller
  | stale location => location ++ " is out of date; regenerate it"

/-- What publishing did to a target. -/
inductive Outcome where
  | written
  | unchanged
deriving DecidableEq, Repr

/-! ## Sinks -/

/-- The operations of a place where texts are kept. -/
structure Sink (σ : Type) where
  /-- The text of a target, if there is one. -/
  read : Target → σ → Except PublishFault (Option String)
  /-- Replaces the text of a target. -/
  write : Target → String → σ → Except PublishFault Unit × σ
  /-- Where a target is, for messages. -/
  describe : Target → σ → String

namespace Sink

variable {σ : Type} (sink : Sink σ) (config : PublishConfig)

/-- Brings a target up to date with a text, or reports it where the configuration says so. -/
def update (target : Target) (text : String) (state : σ) : Except PublishFault Outcome × σ :=
  match sink.read target state with
  | .error fault => (.error fault, state)
  | .ok current =>
    if current = some text then (.ok .unchanged, state)
    else if config.failIfChanged then (.error (.stale (sink.describe target state)), state)
    else
      match sink.write target text state with
      | (.error fault, state) => (.error fault, state)
      | (.ok (), state) => (.ok .written, state)

/-- Brings a target up to date with a document. -/
def publishDocument (target : Target) (document : Document) (state : σ) :
    Except PublishFault Outcome × σ :=
  match document.toYaml config.serializer with
  | .error fault => (.error (.document fault), state)
  | .ok text => sink.update config target text state

/-- Brings the target of a definition up to date. -/
def publish (definition : Definition) (state : σ) : Except PublishFault Outcome × σ :=
  match definition.document with
  | .error e => (.error (.reference e), state)
  | .ok document => sink.publishDocument config definition.target document state

/-- Publishes the definitions in order, up to the first failure. -/
def publishAll : List Definition → σ → Except PublishFault (List Outcome) × σ
  | [], state => (.ok [], state)
  | definition :: rest, state =>
    match sink.publish config definition state with
    | (.error fault, state) => (.error fault, state)
    | (.ok outcome, state) =>
      match publishAll rest state with
      | (.error fault, state) => (.error fault, state)
      | (.ok outcomes, state) => (.ok (outcome :: outcomes), state)

end Sink

end AzurePipelines
