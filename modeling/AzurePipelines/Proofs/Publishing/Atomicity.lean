import AzurePipelines.Publishing.Memory
import Mathlib

/-!
# Publishing is atomic

Publishing a definition to a sink in memory either brings its target up to date and touches nothing
else, or fails and changes nothing (`IsAtomic`).  A list of definitions is published one after
another up to the first failure, and what was published before it stays (`ActsInTurn`).  After any
run of commands, each text of the sink is the one of the definition that was published last under
its key, or was there from the start if there is no such definition (`HoldsLatest`).

The sink is any `keyedSink`: texts may be kept under the paths themselves, or under one key for all
spellings of a path, and any paths may refuse to be written.
-/

namespace AzurePipelines

/-- The definition has a document, and this text under the configuration. -/
def Definition.HasText (definition : Definition) (config : PublishConfig) (text : String) : Prop :=
  ∃ document, definition.document = .ok document ∧ document.toYaml config.serializer = .ok text

theorem Definition.HasText.unique {definition : Definition} {config : PublishConfig}
    {text other : String} (has : definition.HasText config text)
    (hasOther : definition.HasText config other) : text = other := by
  obtain ⟨document, given, written⟩ := has
  obtain ⟨document', given', written'⟩ := hasOther
  obtain rfl := Except.ok.inj (given.symm.trans given')
  exact Except.ok.inj (written.symm.trans written')

section Sinks

variable (key : String → String) (refuses : String → Bool)

/-! ## A single definition -/

section Single

variable (config : PublishConfig) (definition : Definition) (files : OrderedMap String)

/-- All that publishing a definition can do. -/
inductive PublishEffect : Except PublishFault Outcome × OrderedMap String → Prop
  | noText {fault : PublishFault} :
    (∀ text, ¬definition.HasText config text) → PublishEffect (.error fault, files)
  | unchanged {text : String} : definition.HasText config text →
    files.get? (key definition.target.path) = some text → PublishEffect (.ok .unchanged, files)
  | stale {text : String} {fault : PublishFault} : definition.HasText config text →
    files.get? (key definition.target.path) ≠ some text → config.failIfChanged = true →
    PublishEffect (.error fault, files)
  | refused {text : String} {fault : PublishFault} : definition.HasText config text →
    files.get? (key definition.target.path) ≠ some text → refuses definition.target.path = true →
    PublishEffect (.error fault, files)
  | written {text : String} : definition.HasText config text →
    files.get? (key definition.target.path) ≠ some text →
    PublishEffect (.ok .written, files.insert (key definition.target.path) text)

theorem publishEffect_publish :
    PublishEffect key refuses config definition files
      ((keyedSink key refuses).publish config definition files) := by
  obtain ⟨target, document⟩ := definition
  cases document with
  | error e =>
    refine .noText fun text has => ?_
    obtain ⟨_, given, _⟩ := has
    cases given
  | ok document =>
    simp only [Sink.publish, Sink.publishDocument]
    cases written : document.toYaml config.serializer with
    | error fault =>
      refine .noText fun text has => ?_
      obtain ⟨_, given, hasText⟩ := has
      obtain rfl := Except.ok.inj given
      rw [written] at hasText
      cases hasText
    | ok text =>
      have has : Definition.HasText ⟨target, .ok document⟩ config text := ⟨document, rfl, written⟩
      simp only [Sink.update, keyedSink]
      by_cases same : files.get? (key target.path) = some text
      · rw [if_pos same]
        exact .unchanged has same
      · rw [if_neg same]
        cases fails : config.failIfChanged with
        | true => exact .stale has same fails
        | false =>
          cases refused : refuses target.path with
          | true => exact .refused has same refused
          | false => exact .written has same

/-- A definition is published as a whole or not at all, and not published only if it has no text, or
may not be written.  What is written is told from what was up to date. -/
def IsAtomic : Except PublishFault Outcome × OrderedMap String → Prop
  | (.ok outcome, after) =>
    ∃ text, definition.HasText config text ∧
      after.get? (key definition.target.path) = some text ∧
      (∀ name, name ≠ key definition.target.path → after.get? name = files.get? name) ∧
      outcome =
        if files.get? (key definition.target.path) = some text then .unchanged else .written
  | (.error _, after) =>
    after = files ∧ ∀ text, definition.HasText config text →
      files.get? (key definition.target.path) ≠ some text ∧
      (config.failIfChanged = true ∨ refuses definition.target.path = true)

theorem isAtomic_publish :
    IsAtomic key refuses config definition files
      ((keyedSink key refuses).publish config definition files) := by
  have effect := publishEffect_publish key refuses config definition files
  generalize (keyedSink key refuses).publish config definition files = result at effect ⊢
  -- A failure can only blame the text that the definition has, as it has no other.
  cases effect with
  | noText none => exact ⟨rfl, fun text has => absurd has (none text)⟩
  | unchanged has same => exact ⟨_, has, same, fun _ _ => rfl, (if_pos same).symm⟩
  | stale has differs fails =>
    exact ⟨rfl, fun _ other => ⟨has.unique other ▸ differs, .inl fails⟩⟩
  | refused has differs refused =>
    exact ⟨rfl, fun _ other => ⟨has.unique other ▸ differs, .inr refused⟩⟩
  | written has differs =>
    exact ⟨_, has, files.get?_insert_self _ _, fun _ other => files.get?_insert_of_ne _ other,
      (if_neg differs).symm⟩

end Single

/-! ## Lists of definitions -/

/-- The definitions are published one after another. -/
inductive PublishedInTurn (config : PublishConfig) :
    List Definition → OrderedMap String → List Outcome → OrderedMap String → Prop
  | nil {files : OrderedMap String} : PublishedInTurn config [] files [] files
  | cons {definition : Definition} {rest : List Definition} {outcome : Outcome}
    {outcomes : List Outcome} {files next last : OrderedMap String} :
    (keyedSink key refuses).publish config definition files = (.ok outcome, next) →
    PublishedInTurn config rest next outcomes last →
    PublishedInTurn config (definition :: rest) files (outcome :: outcomes) last

/-- All definitions are published in turn, or those before one that fails. -/
def ActsInTurn (config : PublishConfig) (definitions : List Definition)
    (files : OrderedMap String) : Except PublishFault (List Outcome) × OrderedMap String → Prop
  | (.ok outcomes, last) => PublishedInTurn key refuses config definitions files outcomes last
  | (.error fault, last) =>
    ∃ before failing after outcomes, definitions = before ++ failing :: after ∧
      PublishedInTurn key refuses config before files outcomes last ∧
      (keyedSink key refuses).publish config failing last = (.error fault, last)

theorem actsInTurn_publishAll (config : PublishConfig) (definitions : List Definition)
    (files : OrderedMap String) :
    ActsInTurn key refuses config definitions files
      ((keyedSink key refuses).publishAll config definitions files) := by
  induction definitions generalizing files with
  | nil => exact .nil
  | cons definition rest ih =>
    have atomic := isAtomic_publish key refuses config definition files
    rw [Sink.publishAll]
    rcases published : (keyedSink key refuses).publish config definition files with
      ⟨_ | outcome, next⟩
    · -- The failure leaves the files as they were, so that nothing before it is all there is.
      rw [published] at atomic
      obtain rfl : next = files := atomic.1
      exact ⟨[], definition, rest, [], rfl, .nil, published⟩
    · have later := ih next
      dsimp only
      rcases all : (keyedSink key refuses).publishAll config rest next with ⟨_ | outcomes, last⟩
      · rw [all] at later
        obtain ⟨before, failing, after, outcomes, rfl, inTurn, failed⟩ := later
        exact ⟨definition :: before, failing, after, outcome :: outcomes, rfl,
          .cons published inTurn, failed⟩
      · rw [all] at later
        exact .cons published later

end Sinks

/-! ## Runs -/

/-- What a publisher is asked for. -/
inductive PublishCommand where
  | publish (definition : Definition)
  | publishDocument (target : Target) (document : Document)
  | publishAll (definitions : List Definition)
  /-- From here on with another configuration. -/
  | configure (config : PublishConfig)

/-- A publisher with the files of its sink. -/
structure PublishSession where
  config : PublishConfig
  files : OrderedMap String

/-- A definition that was published, and the configuration it was published with. -/
structure Publication where
  config : PublishConfig
  definition : Definition

/-- Publishes the definitions in order, and lists those before the first that fails. -/
def Sink.published {σ : Type} (sink : Sink σ) (config : PublishConfig) :
    List Definition → σ → List Publication
  | [], _ => []
  | definition :: rest, state =>
    match sink.publish config definition state with
    | (.ok _, next) => ⟨config, definition⟩ :: sink.published config rest next
    | (.error _, _) => []

namespace PublishCommand

/-- The session after the command, whether or not it fails. -/
def run (sink : Sink (OrderedMap String)) (session : PublishSession) :
    PublishCommand → PublishSession
  | publish definition =>
    { session with files := (sink.publish session.config definition session.files).2 }
  | publishDocument target document =>
    { session with files := (sink.publishDocument session.config target document session.files).2 }
  | publishAll definitions =>
    { session with files := (sink.publishAll session.config definitions session.files).2 }
  | configure config => { session with config }

/-- The definitions that the command is about. -/
def definitions : PublishCommand → List Definition
  | publish definition => [definition]
  | publishDocument target document => [⟨target, .ok document⟩]
  | publishAll definitions => definitions
  | configure _ => []

/-- The session after all commands. -/
def runAll (sink : Sink (OrderedMap String)) (commands : List PublishCommand)
    (session : PublishSession) : PublishSession :=
  commands.foldl (run sink) session

/-- What commands publish, in order. -/
def publications (sink : Sink (OrderedMap String)) :
    List PublishCommand → PublishSession → List Publication
  | [], _ => []
  | command :: rest, session =>
    sink.published session.config command.definitions session.files ++
      publications sink rest (command.run sink session)

theorem files_run (sink : Sink (OrderedMap String)) (session : PublishSession)
    (command : PublishCommand) :
    (command.run sink session).files =
      (sink.publishAll session.config command.definitions session.files).2 := by
  have single (definition : Definition) :
      (sink.publish session.config definition session.files).2 =
        (sink.publishAll session.config [definition] session.files).2 := by
    rw [Sink.publishAll]
    rcases sink.publish session.config definition session.files with ⟨_ | outcome, next⟩ <;> rfl
  cases command with
  | publish definition => exact single definition
  | publishDocument target document => exact single ⟨target, .ok document⟩
  | publishAll definitions => rfl
  | configure config => rfl

end PublishCommand

/-! ## What a run leaves -/

section Runs

variable (key : String → String)

/-- Under a name stands the text of the latest publication under it, or what stood there before if
there is none. -/
def HoldsLatest (name : String) (before : OrderedMap String) (log : List Publication)
    (after : OrderedMap String) : Prop :=
  ((∀ entry ∈ log, key entry.definition.target.path ≠ name) ∧ after.get? name = before.get? name) ∨
    ∃ earlier latest later text, log = earlier ++ latest :: later ∧
      key latest.definition.target.path = name ∧
      (∀ entry ∈ later, key entry.definition.target.path ≠ name) ∧
      latest.definition.HasText latest.config text ∧ after.get? name = some text

variable {key} {name : String} {before middle after : OrderedMap String}
  {log others : List Publication}

theorem HoldsLatest.refl : HoldsLatest key name before [] before :=
  .inl ⟨List.forall_mem_nil _, rfl⟩

theorem HoldsLatest.append (first : HoldsLatest key name before log middle)
    (second : HoldsLatest key name middle others after) :
    HoldsLatest key name before (log ++ others) after := by
  -- The later log decides, unless it leaves the name alone.
  rcases second with ⟨untouched, same⟩ | ⟨earlier, latest, later, text, rfl, here, last⟩
  · rcases first with ⟨alsoUntouched, alsoSame⟩ |
      ⟨earlier, latest, later, text, rfl, here, last, has, holds⟩
    · exact .inl ⟨List.forall_mem_append.2 ⟨alsoUntouched, untouched⟩, same.trans alsoSame⟩
    · exact .inr ⟨earlier, latest, later ++ others, text, by simp, here,
        List.forall_mem_append.2 ⟨last, untouched⟩, has, same.trans holds⟩
  · exact .inr ⟨log ++ earlier, latest, later, text, by simp, here, last⟩

variable {refuses : String → Bool}

theorem holdsLatest_publish {config : PublishConfig} {definition : Definition} {outcome : Outcome}
    (published : (keyedSink key refuses).publish config definition before = (.ok outcome, after)) :
    HoldsLatest key name before [⟨config, definition⟩] after := by
  have atomic := isAtomic_publish key refuses config definition before
  rw [published] at atomic
  obtain ⟨text, has, holds, others, _⟩ := atomic
  by_cases here : key definition.target.path = name
  · exact .inr ⟨[], ⟨config, definition⟩, [], text, rfl, here, List.forall_mem_nil _, has,
      here ▸ holds⟩
  · exact .inl ⟨List.forall_mem_singleton.2 here, others name (Ne.symm here)⟩

theorem holdsLatest_publishAll (config : PublishConfig) (definitions : List Definition)
    (files : OrderedMap String) :
    HoldsLatest key name files ((keyedSink key refuses).published config definitions files)
      ((keyedSink key refuses).publishAll config definitions files).2 := by
  induction definitions generalizing files with
  | nil => exact .refl
  | cons definition rest ih =>
    rw [Sink.publishAll, Sink.published]
    rcases published : (keyedSink key refuses).publish config definition files with
      ⟨_ | outcome, next⟩
    · have atomic := isAtomic_publish key refuses config definition files
      rw [published] at atomic
      obtain rfl : next = files := atomic.1
      exact .refl
    · have later := (holdsLatest_publish published).append (ih next)
      dsimp only
      rcases all : (keyedSink key refuses).publishAll config rest next with ⟨_ | outcomes, last⟩ <;>
        rwa [all] at later

theorem holdsLatest_runAll (commands : List PublishCommand) (session : PublishSession) :
    HoldsLatest key name session.files
      (PublishCommand.publications (keyedSink key refuses) commands session)
      (PublishCommand.runAll (keyedSink key refuses) commands session).files := by
  induction commands generalizing session with
  | nil => exact .refl
  | cons command rest ih =>
    have first : HoldsLatest key name session.files
        ((keyedSink key refuses).published session.config command.definitions session.files)
        (command.run (keyedSink key refuses) session).files := by
      rw [PublishCommand.files_run]
      exact holdsLatest_publishAll session.config command.definitions session.files
    exact first.append (ih _)

end Runs

/-- **Publishing is atomic, for each definition and over runs.**  A single definition is published
as a whole or not at all; a list is published in turn up to the first failure; and whatever a
publisher is asked for, the text under a name is in the end the one that was published there last,
or the one from the start. -/
theorem keyedSink_atomic (key : String → String) (refuses : String → Bool) :
    (∀ config definition files, IsAtomic key refuses config definition files
      ((keyedSink key refuses).publish config definition files)) ∧
    (∀ config target document files, IsAtomic key refuses config ⟨target, .ok document⟩ files
      ((keyedSink key refuses).publishDocument config target document files)) ∧
    (∀ config definitions files, ActsInTurn key refuses config definitions files
      ((keyedSink key refuses).publishAll config definitions files)) ∧
    ∀ commands session name, HoldsLatest key name session.files
      (PublishCommand.publications (keyedSink key refuses) commands session)
      (PublishCommand.runAll (keyedSink key refuses) commands session).files := by
  refine ⟨isAtomic_publish key refuses, ?_, actsInTurn_publishAll key refuses, ?_⟩
  · exact fun config target document => isAtomic_publish key refuses config ⟨target, .ok document⟩
  · exact fun commands session _ => holdsLatest_runAll commands session

end AzurePipelines
