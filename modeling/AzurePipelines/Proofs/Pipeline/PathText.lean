import AzurePipelines.Pipeline.Fault
import Mathlib

/-!
# Paths are read back from their text

A path is shown to a reader as text, such as `jobs[0].steps[2].else[0]`.  `TreePath.ofText?` reads
such a text step by step.  The text of a path that starts at a field, and whose fields have names of
letters that are no keyword of branches and fragments, is read as the path
(`TreePath.ofText?_text`), so that no two such paths have the same text.
-/

namespace AzurePipelines

/-! ## Reading -/

/-- Reads a number in brackets. -/
def readBracketed : List Char → Option (Nat × List Char)
  | '[' :: text =>
    match text.dropWhile Char.isDigit with
    | ']' :: rest => some (Nat.ofDigitChars 10 (text.takeWhile Char.isDigit) 0, rest)
    | _ => none
  | _ => none

/-- The step with this name, whose number is still to be read if it has one. -/
def namedStep (name : String) (rest : List Char) : Option (PathStep × List Char) :=
  if name = "if" then some (.ifBranch, rest)
  else if name = "else" then some (.elseBranch, rest)
  else if name = "elseif" then
    (readBracketed rest).map fun (k, rest) => (.elseIfBranch k, rest)
  else if name = "fragment" then
    (readBracketed rest).map fun (j, rest) => (.fragmentEntry j, rest)
  else some (.field name, rest)

/-- Reads one step, and gives what follows it. -/
def readStep : List Char → Option (PathStep × List Char)
  | '.' :: text =>
    namedStep (.ofList (text.takeWhile Char.isAlpha)) (text.dropWhile Char.isAlpha)
  | text => (readBracketed text).map fun (i, rest) => (.index i, rest)

/-- Reads all steps; there are at most as many as characters. -/
def readSteps : Nat → List Char → Option TreePath
  | _, [] => some []
  | 0, _ :: _ => none
  | bound + 1, c :: text =>
    (readStep (c :: text)).bind fun (step, rest) => (readSteps bound rest).map (step :: ·)

/-- The path with this text, which has no dot in front of its first field. -/
def TreePath.ofText? (text : String) : Option TreePath :=
  readSteps (text.length + 1) ('.' :: text.toList)

/-! ## Steps -/

/-- A name of letters that is no keyword. -/
def IsFieldName (name : String) : Prop :=
  name.toList.all Char.isAlpha = true ∧ name ∉ ["if", "else", "elseif", "fragment"]

instance (name : String) : Decidable (IsFieldName name) :=
  inferInstanceAs (Decidable (_ ∧ _))

/-- The step can be told by its text. -/
def PathStep.IsPlain : PathStep → Prop
  | .field name => IsFieldName name
  | _ => True

/-- The text does not go on with a word. -/
def EndsWord (text : List Char) : Prop := ∀ c ∈ text.head?, c.isAlpha = false

theorem readBracketed_text (n : Nat) (rest : List Char) :
    readBracketed (("[" ++ toString n ++ "]").toList ++ rest) = some (n, rest) := by
  have digits : ∀ c ∈ Nat.toDigits 10 n, c.isDigit = true := fun c member =>
    Nat.isDigit_of_mem_toDigits (by decide) (by decide) member
  have shape : ("[" ++ toString n ++ "]").toList ++ rest =
      '[' :: (Nat.toDigits 10 n ++ ']' :: rest) := by
    simp [Nat.toList_repr]
  have stops : ']'.isDigit = false := by decide
  rw [shape, readBracketed, List.dropWhile_append_of_pos digits,
    List.takeWhile_append_of_pos digits]
  simp [stops, Nat.ofDigitChars_toDigits]

theorem takeWhile_word {word rest : List Char} (letters : word.all Char.isAlpha = true)
    (ends : EndsWord rest) : (word ++ rest).takeWhile Char.isAlpha = word := by
  rw [List.takeWhile_append_of_pos (List.all_eq_true.1 letters)]
  cases rest with
  | nil => simp
  | cons c rest => simp [ends c rfl]

theorem dropWhile_word {word rest : List Char} (letters : word.all Char.isAlpha = true)
    (ends : EndsWord rest) : (word ++ rest).dropWhile Char.isAlpha = rest := by
  rw [List.dropWhile_append_of_pos (List.all_eq_true.1 letters)]
  cases rest with
  | nil => simp
  | cons c rest => simp [ends c rfl]

theorem endsWord_bracketed (n : Nat) (rest : List Char) :
    EndsWord (("[" ++ toString n ++ "]").toList ++ rest) := by
  intro c first
  simp at first
  rw [← first]
  decide

theorem readStep_word {word rest : List Char} (letters : word.all Char.isAlpha = true)
    (ends : EndsWord rest) :
    readStep ('.' :: (word ++ rest)) = namedStep (.ofList word) rest := by
  rw [readStep, takeWhile_word letters ends, dropWhile_word letters ends]

theorem readStep_text {step : PathStep} (plain : step.IsPlain) {rest : List Char}
    (ends : EndsWord rest) : readStep (step.text.toList ++ rest) = some (step, rest) := by
  cases step with
  | field name =>
    obtain ⟨letters, noKeyword⟩ := plain
    simp only [List.mem_cons, List.not_mem_nil, or_false, not_or] at noKeyword
    obtain ⟨notIf, notElse, notElseIf, notFragment⟩ := noKeyword
    have shape : (PathStep.field name).text.toList ++ rest = '.' :: (name.toList ++ rest) := by
      simp [PathStep.text]
    rw [shape, readStep_word letters ends, String.ofList_toList, namedStep, if_neg notIf,
      if_neg notElse, if_neg notElseIf, if_neg notFragment]
  | index i =>
    have shape : (PathStep.index i).text.toList ++ rest =
        ("[" ++ toString i ++ "]").toList ++ rest := rfl
    rw [shape, readStep, readBracketed_text]
    · rfl
    · intro text found
      simp at found
  | ifBranch =>
    have shape : PathStep.ifBranch.text.toList ++ rest = '.' :: ("if".toList ++ rest) := by
      simp [PathStep.text]
    rw [shape, readStep_word (by decide) ends]
    simp [namedStep]
  | elseBranch =>
    have shape : PathStep.elseBranch.text.toList ++ rest = '.' :: ("else".toList ++ rest) := by
      simp [PathStep.text]
    rw [shape, readStep_word (by decide) ends]
    simp [namedStep]
  | elseIfBranch k =>
    have shape : (PathStep.elseIfBranch k).text.toList ++ rest =
        '.' :: ("elseif".toList ++ (("[" ++ toString k ++ "]").toList ++ rest)) := by
      simp [PathStep.text]
    rw [shape, readStep_word (by decide) (endsWord_bracketed k rest), String.ofList_toList,
      namedStep, readBracketed_text]
    simp
  | fragmentEntry j =>
    have shape : (PathStep.fragmentEntry j).text.toList ++ rest =
        '.' :: ("fragment".toList ++ (("[" ++ toString j ++ "]").toList ++ rest)) := by
      simp [PathStep.text]
    rw [shape, readStep_word (by decide) (endsWord_bracketed j rest), String.ofList_toList,
      namedStep, readBracketed_text]
    simp

/-! ## Paths -/

/-- The text of a step starts with a dot or a bracket. -/
theorem PathStep.exists_text_eq_cons (step : PathStep) :
    ∃ c text, step.text.toList = c :: text ∧ c.isAlpha = false := by
  cases step <;> exact ⟨_, _, by simp [PathStep.text]; exact ⟨rfl, rfl⟩, by decide⟩

theorem endsWord_flatMap (path : TreePath) :
    EndsWord (path.flatMap fun step => step.text.toList) := by
  cases path with
  | nil =>
    intro c first
    cases first
  | cons step path =>
    obtain ⟨c, text, shape, ends⟩ := step.exists_text_eq_cons
    intro d first
    rw [List.flatMap_cons, shape] at first
    obtain rfl : c = d := by simpa using first
    exact ends

theorem readSteps_flatMap {path : TreePath} (plain : ∀ step ∈ path, step.IsPlain) {bound : Nat}
    (enough : path.length ≤ bound) :
    readSteps bound (path.flatMap fun step => step.text.toList) = some path := by
  induction path generalizing bound with
  | nil => cases bound <;> rfl
  | cons step path ih =>
    rw [List.forall_mem_cons] at plain
    obtain ⟨c, text, shape, _⟩ := step.exists_text_eq_cons
    have read := readStep_text plain.1 (endsWord_flatMap path)
    rw [shape, List.cons_append] at read
    cases bound with
    | zero => cases enough
    | succ bound =>
      have tail := ih plain.2 (Nat.le_of_succ_le_succ enough)
      rw [List.flatMap_cons, shape, List.cons_append, readSteps, read, Option.bind_some]
      exact congrArg (Option.map (step :: ·)) tail

theorem length_le_length_flatMap (path : TreePath) :
    path.length ≤ (path.flatMap fun step => step.text.toList).length := by
  induction path with
  | nil => simp
  | cons step path ih =>
    obtain ⟨c, text, shape, _⟩ := step.exists_text_eq_cons
    rw [List.flatMap_cons, shape, List.length_append, List.length_cons, List.length_cons]
    omega

/-- **A path that starts at a field is read back from its text.** -/
theorem TreePath.ofText?_text {name : String} {path : TreePath}
    (plain : ∀ step ∈ PathStep.field name :: path, step.IsPlain) :
    ofText? (TreePath.text (.field name :: path)) = some (.field name :: path) := by
  have shape : '.' :: (TreePath.text (.field name :: path)).toList =
      (PathStep.field name :: path).flatMap fun step => step.text.toList := by
    simp [TreePath.text, PathStep.text, String.toList_join, List.flatMap_map]
  have length := congrArg List.length shape
  rw [List.length_cons, String.length_toList] at length
  rw [ofText?, shape]
  refine readSteps_flatMap plain ?_
  rw [length]
  exact length_le_length_flatMap _

end AzurePipelines
