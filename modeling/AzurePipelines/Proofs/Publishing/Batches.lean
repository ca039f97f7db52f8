import AzurePipelines.Proofs.Publishing.Atomicity
import Mathlib

/-!
# Publishing a batch

Publishing a definition looks at the text under one key and changes no other
(`publish_fst_congr`, `PublishedInTurn.get?_of_forall_ne`), so that definitions with different keys
do not get in each other's way: in a batch each of them comes out as it would by itself
(`PublishedInTurn.exists_outcome`), and definitions that come out well by themselves do so in a
batch (`exists_publishedInTurn`).  A batch may therefore be published in any order, and once it is
published there is nothing left to do (`publishAll_perm`).
-/

namespace AzurePipelines

variable {key : String → String} {refuses : String → Bool} {config : PublishConfig}
  {definition : Definition} {definitions : List Definition}
  {files other next last : OrderedMap String} {outcome : Outcome} {outcomes : List Outcome}

/-! ## Single definitions -/

/-- What publishing a definition answers hangs on the text under its key alone. -/
theorem publish_fst_congr
    (same : files.get? (key definition.target.path) = other.get? (key definition.target.path)) :
    ((keyedSink key refuses).publish config definition files).1 =
      ((keyedSink key refuses).publish config definition other).1 := by
  obtain ⟨target, document⟩ := definition
  cases document with
  | error e => rfl
  | ok document =>
    simp only [Sink.publish, Sink.publishDocument]
    cases document.toYaml config.serializer with
    | error fault => rfl
    | ok text =>
      simp only [Sink.update, keyedSink, same]
      split
      · rfl
      · split
        · rfl
        · cases refuses target.path <;> rfl

/-- There is nothing to do for a definition whose text stands under its key. -/
theorem publish_of_get?_eq {text : String} (has : definition.HasText config text)
    (stands : files.get? (key definition.target.path) = some text) :
    (keyedSink key refuses).publish config definition files = (.ok .unchanged, files) := by
  obtain ⟨target, given⟩ := definition
  obtain ⟨document, rfl, written⟩ := has
  simp [Sink.publish, Sink.publishDocument, Sink.update, keyedSink, written, stands]

/-- The definition has a text, and it stands under its key. -/
def IsUpToDate (key : String → String) (config : PublishConfig) (files : OrderedMap String)
    (definition : Definition) : Prop :=
  ∃ text, definition.HasText config text ∧
    files.get? (key definition.target.path) = some text

theorem IsUpToDate.congr (h : IsUpToDate key config files definition)
    (same : other.get? (key definition.target.path) = files.get? (key definition.target.path)) :
    IsUpToDate key config other definition := by
  obtain ⟨text, has, stands⟩ := h
  exact ⟨text, has, same.trans stands⟩

theorem IsUpToDate.of_publish
    (published : (keyedSink key refuses).publish config definition files = (.ok outcome, next)) :
    IsUpToDate key config next definition := by
  have atomic := isAtomic_publish key refuses config definition files
  rw [published] at atomic
  obtain ⟨text, has, stands, _⟩ := atomic
  exact ⟨text, has, stands⟩

/-- A definition that is published leaves the texts under all other keys alone. -/
theorem get?_of_publish {name : String}
    (published : (keyedSink key refuses).publish config definition files = (.ok outcome, next))
    (elsewhere : key definition.target.path ≠ name) : next.get? name = files.get? name := by
  have atomic := isAtomic_publish key refuses config definition files
  rw [published] at atomic
  obtain ⟨_, _, _, others, _⟩ := atomic
  exact others name elsewhere.symm

/-! ## Batches -/

namespace PublishedInTurn

/-- A batch leaves the texts under all keys but its own alone. -/
theorem get?_of_forall_ne {name : String}
    (h : PublishedInTurn key refuses config definitions files outcomes last)
    (elsewhere : ∀ definition ∈ definitions, key definition.target.path ≠ name) :
    last.get? name = files.get? name := by
  induction h with
  | nil => rfl
  | cons published _ ih =>
    obtain ⟨here, below⟩ := List.forall_mem_cons.1 elsewhere
    exact (ih below).trans (get?_of_publish published here)

/-- Definitions that are published in turn are published all. -/
theorem publishAll_eq (h : PublishedInTurn key refuses config definitions files outcomes last) :
    (keyedSink key refuses).publishAll config definitions files = (.ok outcomes, last) := by
  induction h with
  | nil => rfl
  | cons published _ ih =>
    rw [Sink.publishAll, published]
    dsimp only
    rw [ih]

theorem of_publishAll
    (h : (keyedSink key refuses).publishAll config definitions files = (.ok outcomes, last)) :
    PublishedInTurn key refuses config definitions files outcomes last := by
  have inTurn := actsInTurn_publishAll key refuses config definitions files
  rwa [h] at inTurn

/-- After a batch with different keys all its definitions are up to date. -/
theorem isUpToDate (h : PublishedInTurn key refuses config definitions files outcomes last)
    (distinct : (definitions.map (key ·.target.path)).Nodup) :
    ∀ definition ∈ definitions, IsUpToDate key config last definition := by
  induction h with
  | nil => exact List.forall_mem_nil _
  | cons published later ih =>
    obtain ⟨apart, distinct⟩ := List.pairwise_cons.1 distinct
    have elsewhere := List.forall_mem_map.1 apart
    refine List.forall_mem_cons.2 ⟨?_, ih distinct⟩
    -- No later definition writes under the key of this one.
    exact (IsUpToDate.of_publish published).congr
      (later.get?_of_forall_ne fun other member => (elsewhere other member).symm)

/-- In a batch with different keys each definition comes out as it would by itself. -/
theorem map_publish (h : PublishedInTurn key refuses config definitions files outcomes last)
    (distinct : (definitions.map (key ·.target.path)).Nodup) :
    definitions.map (fun definition =>
      ((keyedSink key refuses).publish config definition files).1) = outcomes.map .ok := by
  induction h with
  | nil => rfl
  | cons published _ ih =>
    obtain ⟨apart, distinct⟩ := List.pairwise_cons.1 distinct
    have elsewhere := List.forall_mem_map.1 apart
    rw [List.map_cons, List.map_cons, ← ih distinct, published]
    congr 1
    exact List.map_congr_left fun other member =>
      publish_fst_congr (get?_of_publish published (elsewhere other member)).symm

/-- The outcomes of a batch with different keys are those of its definitions, each by itself. -/
theorem exists_outcome (h : PublishedInTurn key refuses config definitions files outcomes last)
    (distinct : (definitions.map (key ·.target.path)).Nodup) :
    ∃ outcome : Definition → Outcome, outcomes = definitions.map outcome ∧
      ∀ definition ∈ definitions,
        ((keyedSink key refuses).publish config definition files).1 = .ok (outcome definition) := by
  have answers := h.map_publish distinct
  refine ⟨fun definition =>
    (((keyedSink key refuses).publish config definition files).1.toOption).getD .unchanged, ?_, ?_⟩
  · have both := congrArg (List.map fun answer => answer.toOption.getD .unchanged) answers
    simpa [Function.comp_def, Except.toOption] using both.symm
  · intro definition member
    have answered := List.mem_map_of_mem (f := fun definition =>
      ((keyedSink key refuses).publish config definition files).1) member
    rw [answers] at answered
    obtain ⟨outcome, _, same⟩ := List.mem_map.1 answered
    simp [← same, Except.toOption]

end PublishedInTurn

/-- Definitions with different keys that come out well by themselves are published in turn. -/
theorem exists_publishedInTurn {outcome : Definition → Outcome}
    (answers : ∀ definition ∈ definitions,
      ((keyedSink key refuses).publish config definition files).1 = .ok (outcome definition))
    (distinct : (definitions.map (key ·.target.path)).Nodup) :
    ∃ last, PublishedInTurn key refuses config definitions files (definitions.map outcome)
      last := by
  induction definitions generalizing files with
  | nil => exact ⟨files, .nil⟩
  | cons definition rest ih =>
    obtain ⟨here, below⟩ := List.forall_mem_cons.1 answers
    obtain ⟨apart, distinct⟩ := List.pairwise_cons.1 distinct
    have elsewhere := List.forall_mem_map.1 apart
    have published : (keyedSink key refuses).publish config definition files =
        (.ok (outcome definition), ((keyedSink key refuses).publish config definition files).2) :=
      Prod.ext here rfl
    have answersBelow : ∀ other ∈ rest, ((keyedSink key refuses).publish config other
        ((keyedSink key refuses).publish config definition files).2).1 = .ok (outcome other) := by
      intro other member
      rw [← below other member]
      exact publish_fst_congr (get?_of_publish published (elsewhere other member))
    obtain ⟨last, later⟩ := ih answersBelow distinct
    exact ⟨last, .cons published later⟩

/-- There is nothing to do for a batch that is up to date. -/
theorem publishAll_of_isUpToDate
    (upToDate : ∀ definition ∈ definitions, IsUpToDate key config files definition) :
    (keyedSink key refuses).publishAll config definitions files =
      (.ok (definitions.map fun _ => .unchanged), files) := by
  induction definitions with
  | nil => rfl
  | cons definition rest ih =>
    obtain ⟨⟨text, has, stands⟩, below⟩ := List.forall_mem_cons.1 upToDate
    rw [Sink.publishAll, publish_of_get?_eq has stands]
    dsimp only
    rw [ih below]
    rfl

/-! ## Order -/

/-- Where all definitions are up to date in both sinks, and the sinks agree elsewhere, they hold the
same texts. -/
theorem get?_eq_of_isUpToDate
    (here : ∀ definition ∈ definitions, IsUpToDate key config files definition)
    (there : ∀ definition ∈ definitions, IsUpToDate key config other definition)
    {name : String}
    (elsewhere : (∀ definition ∈ definitions, key definition.target.path ≠ name) →
      files.get? name = other.get? name) :
    files.get? name = other.get? name := by
  by_cases named : ∃ definition ∈ definitions, key definition.target.path = name
  · obtain ⟨definition, member, rfl⟩ := named
    obtain ⟨text, has, stands⟩ := here definition member
    obtain ⟨_, hasOther, standsOther⟩ := there definition member
    rw [stands, standsOther, has.unique hasOther]
  · exact elsewhere fun definition member same => named ⟨definition, member, same⟩

/-- **A batch may be published in any order, and twice.**  Where definitions with different keys are
published all, each has an outcome of its own, which it also has in any other order from the same
texts, and all orders end with the same texts under all names.  Published once more, in any order,
all definitions are unchanged, and so are the texts. -/
theorem publishAll_perm
    (distinct : (definitions.map (key ·.target.path)).Nodup)
    (published : (keyedSink key refuses).publishAll config definitions files =
      (.ok outcomes, last)) :
    (∀ permuted, List.Perm permuted definitions →
      (keyedSink key refuses).publishAll config permuted last =
        (.ok (permuted.map fun _ => .unchanged), last)) ∧
    ∃ outcome : Definition → Outcome, outcomes = definitions.map outcome ∧
      ∀ permuted, List.Perm permuted definitions → ∃ after,
        (keyedSink key refuses).publishAll config permuted files =
          (.ok (permuted.map outcome), after) ∧
        ∀ name, after.get? name = last.get? name := by
  have inTurn := PublishedInTurn.of_publishAll published
  have upToDate := inTurn.isUpToDate distinct
  obtain ⟨outcome, rfl, answers⟩ := inTurn.exists_outcome distinct
  refine ⟨fun permuted perm => ?_, outcome, rfl, fun permuted perm => ?_⟩
  · exact publishAll_of_isUpToDate fun definition member =>
      upToDate definition (perm.subset member)
  · have distinctPermuted : (permuted.map (key ·.target.path)).Nodup :=
      (perm.map _).nodup_iff.2 distinct
    obtain ⟨after, inTurnPermuted⟩ := exists_publishedInTurn
      (fun definition member => answers definition (perm.subset member)) distinctPermuted
    refine ⟨after, inTurnPermuted.publishAll_eq, fun name => ?_⟩
    have upToDatePermuted := inTurnPermuted.isUpToDate distinctPermuted
    refine get?_eq_of_isUpToDate
      (fun definition member => upToDatePermuted definition (perm.symm.subset member)) upToDate
      fun elsewhere => ?_
    rw [inTurn.get?_of_forall_ne elsewhere,
      inTurnPermuted.get?_of_forall_ne fun definition member =>
        elsewhere definition (perm.subset member)]

/-- A template with one script. -/
def scriptTemplate (script : String) : Document :=
  .template [] (.steps [.item { action := .script ⟨script, none, false⟩ }])

/-- Of two definitions the first is there from the start, and the second is written, whichever is
published first. -/
theorem publishAll_perm_twoScripts :
    let first : Definition := ⟨⟨"a.yml", .repositoryRoot⟩, .ok (scriptTemplate "make")⟩
    let second : Definition := ⟨⟨"b.yml", .callerDirectory⟩, .ok (scriptTemplate "make test")⟩
    let start := OrderedMap.ofList [("a.yml", "steps:\n- script: make\n")]
    let full := start.insert "b.yml" "steps:\n- script: make test\n"
    ([first, second].map (id ·.target.path)).Nodup ∧
      (memorySink ["c.yml"]).publishAll {} [first, second] start =
        (.ok [.unchanged, .written], full) ∧
      (memorySink ["c.yml"]).publishAll {} [second, first] full =
        (.ok [.unchanged, .unchanged], full) ∧
      ∃ after, (memorySink ["c.yml"]).publishAll {} [second, first] start =
        (.ok [.written, .unchanged], after) ∧ ∀ name, after.get? name = full.get? name := by
  intro first second start full
  have distinct : ([first, second].map (id ·.target.path)).Nodup := by decide
  have published : (memorySink ["c.yml"]).publishAll {} [first, second] start =
      (.ok [.unchanged, .written], full) := by
    have firstText : (scriptTemplate "make").toYaml {} = .ok "steps:\n- script: make\n" :=
      Document.toYaml_eq_ok_iff.2 ⟨rfl, by decide⟩
    have secondText : (scriptTemplate "make test").toYaml {} =
        .ok "steps:\n- script: make test\n" := Document.toYaml_eq_ok_iff.2 ⟨rfl, by decide⟩
    have firstHere : start.get? "a.yml" = some "steps:\n- script: make\n" := by decide
    have secondAbsent : start.get? "b.yml" = none := by decide
    simp [first, second, full, Sink.publishAll, Sink.publish, Sink.publishDocument, Sink.update,
      memorySink, keyedSink, firstText, secondText, firstHere, secondAbsent]
  obtain ⟨again, outcome, same, permuted⟩ := publishAll_perm distinct published
  have swapped : List.Perm [second, first] [first, second] := .swap _ _ _
  simp only [List.map_cons, List.map_nil, List.cons.injEq] at same
  refine ⟨distinct, published, again _ swapped, ?_⟩
  have reordered := permuted _ swapped
  rwa [List.map_cons, List.map_cons, List.map_nil, ← same.1, ← same.2.1] at reordered

end AzurePipelines
