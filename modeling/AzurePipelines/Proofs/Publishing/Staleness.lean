import AzurePipelines.Proofs.Publishing.Batches
import Mathlib

/-!
# Reporting files that are out of date

A publisher that reports what is out of date instead of writing it leaves every sink as it is, in
any run (`PublishCommand.files_runAll_of_reports`).  Of a batch of definitions that have texts, it
then answers exactly: all are unchanged if all are up to date, and else the first that is not is
reported (`publishAll_reports`).
-/

namespace AzurePipelines

/-! ## Nothing is written -/

section Sinks

variable {σ : Type} (sink : Sink σ) {config : PublishConfig}

theorem Sink.update_snd (reports : config.failIfChanged = true) (target : Target) (text : String)
    (state : σ) : (sink.update config target text state).2 = state := by
  unfold update
  cases sink.read target state with
  | error fault => rfl
  | ok current =>
    dsimp only
    rw [if_pos reports]
    split <;> rfl

theorem Sink.publishDocument_snd (reports : config.failIfChanged = true) (target : Target)
    (document : Document) (state : σ) :
    (sink.publishDocument config target document state).2 = state := by
  unfold publishDocument
  cases document.toYaml config.serializer with
  | error fault => rfl
  | ok text => exact sink.update_snd reports target text state

theorem Sink.publish_snd (reports : config.failIfChanged = true) (definition : Definition)
    (state : σ) : (sink.publish config definition state).2 = state := by
  unfold publish
  cases definition.document with
  | error e => rfl
  | ok document => exact sink.publishDocument_snd reports definition.target document state

theorem Sink.publishAll_snd (reports : config.failIfChanged = true)
    (definitions : List Definition) (state : σ) :
    (sink.publishAll config definitions state).2 = state := by
  induction definitions generalizing state with
  | nil => rfl
  | cons definition rest ih =>
    have same := sink.publish_snd reports definition state
    rw [publishAll]
    rcases published : sink.publish config definition state with ⟨_ | outcome, next⟩
    · rwa [published] at same
    · rw [published] at same
      obtain rfl : next = state := same
      have later := ih next
      dsimp only
      rcases all : sink.publishAll config rest next with ⟨_ | outcomes, last⟩ <;>
        rwa [all] at later

end Sinks

/-! ### Runs -/

namespace PublishCommand

/-- If the command sets a configuration, it is one that reports what is out of date. -/
def Reports : PublishCommand → Prop
  | configure config => config.failIfChanged = true
  | _ => True

variable (sink : Sink (OrderedMap String)) {session : PublishSession}

theorem files_run_of_reports (on : session.config.failIfChanged = true)
    (command : PublishCommand) : (command.run sink session).files = session.files := by
  rw [files_run]
  exact sink.publishAll_snd on command.definitions session.files

theorem config_run_of_reports (on : session.config.failIfChanged = true)
    {command : PublishCommand} (reports : command.Reports) :
    (command.run sink session).config.failIfChanged = true := by
  cases command with
  | configure config => exact reports
  | _ => exact on

/-- Whatever a publisher is asked for, it writes nothing as long as it reports what is out of
date. -/
theorem files_runAll_of_reports {commands : List PublishCommand}
    (on : session.config.failIfChanged = true) (reports : ∀ command ∈ commands, command.Reports) :
    (runAll sink commands session).files = session.files := by
  induction commands generalizing session with
  | nil => rfl
  | cons command rest ih =>
    obtain ⟨first, later⟩ := List.forall_mem_cons.1 reports
    have rest := ih (config_run_of_reports sink on first) later
    exact rest.trans (files_run_of_reports sink on command)

end PublishCommand

/-! ## The first that is out of date -/

variable {key : String → String} {refuses : String → Bool} {config : PublishConfig}
  {definition : Definition} {definitions : List Definition} {files : OrderedMap String}

/-- The definition is not up to date, and all before it in the list are. -/
def IsFirstStale (key : String → String) (config : PublishConfig) (files : OrderedMap String)
    (definitions : List Definition) (definition : Definition) : Prop :=
  ∃ before after, definitions = before ++ definition :: after ∧
    (∀ other ∈ before, IsUpToDate key config files other) ∧
    ¬IsUpToDate key config files definition

theorem exists_isFirstStale (stale : ¬∀ definition ∈ definitions, IsUpToDate key config files
    definition) : ∃ definition, IsFirstStale key config files definitions definition := by
  induction definitions with
  | nil => exact absurd (List.forall_mem_nil _) stale
  | cons definition rest ih =>
    by_cases upToDate : IsUpToDate key config files definition
    · have below : ¬∀ other ∈ rest, IsUpToDate key config files other :=
        fun all => stale (List.forall_mem_cons.2 ⟨upToDate, all⟩)
      obtain ⟨first, before, after, rfl, above, isStale⟩ := ih below
      exact ⟨first, definition :: before, after, rfl, List.forall_mem_cons.2 ⟨upToDate, above⟩,
        isStale⟩
    · exact ⟨definition, [], rest, rfl, List.forall_mem_nil _, upToDate⟩

theorem publish_of_not_isUpToDate {text : String} (reports : config.failIfChanged = true)
    (has : definition.HasText config text) (stale : ¬IsUpToDate key config files definition) :
    (keyedSink key refuses).publish config definition files =
      (.error (.stale definition.target.path), files) := by
  have differs : files.get? (key definition.target.path) ≠ some text :=
    fun same => stale ⟨text, has, same⟩
  obtain ⟨target, given⟩ := definition
  obtain ⟨document, rfl, written⟩ := has
  simp [Sink.publish, Sink.publishDocument, Sink.update, keyedSink, written, differs, reports]

theorem publishAll_of_isFirstStale {text : String} (reports : config.failIfChanged = true)
    (has : definition.HasText config text)
    (first : IsFirstStale key config files definitions definition) :
    (keyedSink key refuses).publishAll config definitions files =
      (.error (.stale definition.target.path), files) := by
  obtain ⟨before, after, rfl, above, stale⟩ := first
  induction before with
  | nil =>
    rw [List.nil_append, Sink.publishAll, publish_of_not_isUpToDate reports has stale]
  | cons other before ih =>
    obtain ⟨⟨text, hasText, stands⟩, above⟩ := List.forall_mem_cons.1 above
    rw [List.cons_append, Sink.publishAll, publish_of_get?_eq hasText stands]
    dsimp only
    rw [ih above]

/-- **A publisher that reports what is out of date writes nothing and answers exactly.**  No run
changes a file, whatever the sink.  A batch of definitions that have texts succeeds exactly if each
target holds the text of its definition, and else the first is reported of which it does not. -/
theorem publishAll_reports (key : String → String) (refuses : String → Bool) :
    (∀ (sink : Sink (OrderedMap String)) commands session, session.config.failIfChanged = true →
      (∀ command ∈ commands, command.Reports) →
        (PublishCommand.runAll sink commands session).files = session.files) ∧
    ∀ config definitions files, config.failIfChanged = true →
      (∀ definition ∈ definitions, ∃ text, definition.HasText config text) →
      ((∃ outcomes, ((keyedSink key refuses).publishAll config definitions files).1 =
          .ok outcomes) ↔
        ∀ definition ∈ definitions, IsUpToDate key config files definition) ∧
      ((¬∀ definition ∈ definitions, IsUpToDate key config files definition) →
        ∃ definition, IsFirstStale key config files definitions definition ∧
          (keyedSink key refuses).publishAll config definitions files =
            (.error (.stale definition.target.path), files)) := by
  refine ⟨fun sink commands session => PublishCommand.files_runAll_of_reports sink,
    fun config definitions files reports texts => ?_⟩
  have reported : (¬∀ definition ∈ definitions, IsUpToDate key config files definition) →
      ∃ definition, IsFirstStale key config files definitions definition ∧
        (keyedSink key refuses).publishAll config definitions files =
          (.error (.stale definition.target.path), files) := by
    intro stale
    obtain ⟨definition, first⟩ := exists_isFirstStale stale
    obtain ⟨before, after, split, _⟩ := id first
    obtain ⟨text, has⟩ := texts definition (by rw [split]; simp)
    exact ⟨definition, first, publishAll_of_isFirstStale reports has first⟩
  refine ⟨⟨fun ⟨outcomes, succeeds⟩ => ?_, fun upToDate => ?_⟩, reported⟩
  · by_contra stale
    obtain ⟨definition, _, failed⟩ := reported stale
    rw [failed] at succeeds
    cases succeeds
  · rw [publishAll_of_isUpToDate upToDate]
    exact ⟨_, rfl⟩

/-- Of three definitions the first is up to date, the second differs from what its target holds, and
the target of the third is missing: the second is reported, and nothing is written. -/
theorem publishAll_reports_secondScript :
    let config : PublishConfig := { failIfChanged := true }
    let first : Definition := ⟨⟨"a.yml", .repositoryRoot⟩, .ok (scriptTemplate "make")⟩
    let second : Definition := ⟨⟨"b.yml", .callerDirectory⟩, .ok (scriptTemplate "make test")⟩
    let third : Definition := ⟨⟨"c.yml", .repositoryRoot⟩, .ok (scriptTemplate "make")⟩
    let files := OrderedMap.ofList
      [("a.yml", "steps:\n- script: make\n"), ("b.yml", "steps:\n- script: make\n")]
    (∀ definition ∈ [first, second, third], ∃ text, definition.HasText config text) ∧
      (PublishCommand.runAll (memorySink ["c.yml"])
        [.publish third, .publishDocument second.target (scriptTemplate "make"),
          .configure { config with serializer := { header := ["Checked"] } },
          .publishAll [first, second, third]] ⟨config, files⟩).files = files ∧
      ∃ definition, IsFirstStale id config files [first, second, third] definition ∧
        (memorySink ["c.yml"]).publishAll config [first, second, third] files =
          (.error (.stale definition.target.path), files) := by
  intro config first second third files
  have makeText : (scriptTemplate "make").toYaml {} = .ok "steps:\n- script: make\n" :=
    Document.toYaml_eq_ok_iff.2 ⟨rfl, by decide⟩
  have testText : (scriptTemplate "make test").toYaml {} = .ok "steps:\n- script: make test\n" :=
    Document.toYaml_eq_ok_iff.2 ⟨rfl, by decide⟩
  have texts : ∀ definition ∈ [first, second, third], ∃ text, definition.HasText config text :=
    List.forall_mem_cons.2 ⟨⟨_, _, rfl, makeText⟩, List.forall_mem_cons.2 ⟨⟨_, _, rfl, testText⟩,
      List.forall_mem_singleton.2 ⟨_, _, rfl, makeText⟩⟩⟩
  have stale : ¬∀ definition ∈ [first, second, third], IsUpToDate id config files definition := by
    intro upToDate
    obtain ⟨text, ⟨document, given, written⟩, stands⟩ := upToDate second (by simp)
    cases given
    cases testText.symm.trans written
    exact absurd stands (by decide)
  obtain ⟨silent, exact⟩ := publishAll_reports id fun path => decide (path ∈ ["c.yml"])
  refine ⟨texts, silent _ _ _ rfl ?_, (exact _ _ files rfl texts).2 stale⟩
  simp [PublishCommand.Reports, config]

end AzurePipelines
