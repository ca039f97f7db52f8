import AzurePipelines.Proofs.Schema.Composition
import Mathlib

/-!
# The texts of references

A text is cut at its dots into segments, and it is a path if each of them is a word that starts with
a letter or `_` and goes on with letters, digits, `_` and `-`, all of them in ASCII
(`IsSegmentText`).  `ParameterReference.parse_laws` says that a text has a reference exactly if it
is a path, that the reference has the segments of the text, that a text without one is refused for
being blank or for its first segment that is no such word (`IsRefusedFor`), and that the members of
a reference are found below it whether they are asked for one by one or by a path.
-/

namespace AzurePipelines

namespace Text

/-- Texts without the separator are the pieces of what they are joined to. -/
theorem pieces_intercalate {sep : Char} {parts : List (List Char)} (nonempty : parts ≠ [])
    (apart : ∀ part ∈ parts, sep ∉ part) : pieces sep ([sep].intercalate parts) = parts := by
  induction parts with
  | nil => exact absurd rfl nonempty
  | cons part parts ih =>
    rw [List.forall_mem_cons] at apart
    cases parts with
    | nil => rw [List.intercalate_singleton, pieces_of_notMem apart.1]
    | cons next parts =>
      rw [List.intercalate_cons_cons, List.append_assoc, List.singleton_append,
        pieces_append_cons, pieces_of_notMem apart.1, ih (List.cons_ne_nil next parts) apart.2,
        List.singleton_append]

end Text

/-! ## Segments -/

/-- A letter of ASCII. -/
def IsLetter (c : Char) : Prop := 'A' ≤ c ∧ c ≤ 'Z' ∨ 'a' ≤ c ∧ c ≤ 'z'

/-- A digit of ASCII. -/
def IsDigit (c : Char) : Prop := '0' ≤ c ∧ c ≤ '9'

def IsStart (c : Char) : Prop := IsLetter c ∨ c = '_'

def IsContinuation (c : Char) : Prop := IsLetter c ∨ IsDigit c ∨ c = '_' ∨ c = '-'

/-- A word that may be a segment. -/
def IsSegmentText (segment : String) : Prop :=
  ∃ first rest, segment.toList = first :: rest ∧ IsStart first ∧ ∀ c ∈ rest, IsContinuation c

/-- The text consists of the segments, with dots between them. -/
structure IsCutInto (text : String) (segments : List String) : Prop where
  nonempty : segments ≠ []
  apart : ∀ segment ∈ segments, '.' ∉ segment.toList
  joined : ".".intercalate segments = text

/-- The text is a path of these segments. -/
structure IsPathOf (text : String) (segments : List String) : Prop where
  nonempty : segments ≠ []
  words : ∀ segment ∈ segments, IsSegmentText segment
  joined : ".".intercalate segments = text

theorem isAlpha_iff (c : Char) : c.isAlpha = true ↔ IsLetter c := by
  simp only [Char.isAlpha, Char.isUpper, Char.isLower, IsLetter, Char.le_def, Bool.or_eq_true,
    Bool.and_eq_true, decide_eq_true_eq, ge_iff_le]

theorem startsSegment_iff (c : Char) : startsSegment c = true ↔ IsStart c := by
  rw [startsSegment, Bool.or_eq_true, beq_iff_eq, isAlpha_iff, IsStart]

theorem continuesSegment_iff (c : Char) : continuesSegment c = true ↔ IsContinuation c := by
  have digit : c.isDigit = true ↔ IsDigit c := by
    simp only [Char.isDigit, IsDigit, Char.le_def, Bool.and_eq_true, decide_eq_true_eq, ge_iff_le]
  simp only [continuesSegment, Char.isAlphanum, Bool.or_eq_true, beq_iff_eq, isAlpha_iff, digit,
    IsContinuation, or_assoc]

theorem isSegment_iff (segment : String) :
    isSegment segment.toList = true ↔ IsSegmentText segment := by
  rw [IsSegmentText]
  cases segment.toList with
  | nil => simp [isSegment]
  | cons first rest =>
    simp [isSegment, startsSegment_iff, continuesSegment_iff]

theorem IsSegmentText.notMem_dot {segment : String} (h : IsSegmentText segment) :
    '.' ∉ segment.toList := by
  obtain ⟨first, rest, isText, start, all⟩ := h
  rw [isText, List.mem_cons, not_or]
  constructor
  · rintro rfl
    exact absurd ((startsSegment_iff '.').2 start) (by decide)
  · intro member
    exact absurd ((continuesSegment_iff '.').2 (all '.' member)) (by decide)

theorem IsPathOf.isCutInto {text : String} {segments : List String} (h : IsPathOf text segments) :
    IsCutInto text segments :=
  ⟨h.nonempty, fun segment member => (h.words segment member).notMem_dot, h.joined⟩

/-- A text is cut in one way only. -/
theorem isCutInto_iff {text : String} {segments : List String} :
    IsCutInto text segments ↔ segments = (Text.pieces '.' text.toList).map String.ofList := by
  constructor
  · rintro ⟨nonempty, apart, rfl⟩
    have parts : Text.pieces '.' ([('.' : Char)].intercalate (segments.map String.toList)) =
        segments.map String.toList := by
      apply Text.pieces_intercalate
      · simpa using nonempty
      · simpa using apart
    have separator : ".".toList = ['.'] := rfl
    rw [String.toList_intercalate, separator, parts, List.map_map]
    simp [Function.comp_def]
  · rintro rfl
    refine ⟨?_, ?_, ?_⟩
    · simpa using Text.pieces_ne_nil '.' text.toList
    · intro segment member
      obtain ⟨piece, inPieces, rfl⟩ := List.mem_map.1 member
      rw [String.toList_ofList]
      exact Text.not_mem_of_mem_pieces inPieces
    · have separator : ".".toList = ['.'] := rfl
      rw [← String.toList_inj, String.toList_intercalate, separator, List.map_map]
      simp [Function.comp_def, Text.intercalate_pieces]

theorem exists_isPathOf_iff (text : String) :
    (∃ segments, IsPathOf text segments) ↔ isReferencePath text.toList = true := by
  rw [isReferencePath, List.all_eq_true]
  constructor
  · rintro ⟨segments, isPath⟩ piece member
    have cut := isCutInto_iff.1 isPath.isCutInto
    have inSegments : String.ofList piece ∈ segments := cut ▸ List.mem_map_of_mem member
    have word := (isSegment_iff _).2 (isPath.words _ inSegments)
    rwa [String.toList_ofList] at word
  · intro all
    have cut : IsCutInto text ((Text.pieces '.' text.toList).map String.ofList) :=
      isCutInto_iff.2 rfl
    refine ⟨_, cut.nonempty, fun segment member => ?_, cut.joined⟩
    obtain ⟨piece, inPieces, rfl⟩ := List.mem_map.1 member
    rw [← isSegment_iff, String.toList_ofList]
    exact all piece inPieces

/-! ## Reasons -/

/-- Why a word is no segment. -/
inductive IsFaultyFor (segment : String) : String → Prop
  | empty : segment = "" → IsFaultyFor segment "path has an empty segment"
  | start {first : Char} {rest : List Char} : segment.toList = first :: rest → ¬IsStart first →
    IsFaultyFor segment ("segment '" ++ segment ++ "' must start with a letter or '_'")
  | character {first bad : Char} {before after : List Char} :
    segment.toList = first :: (before ++ bad :: after) → IsStart first →
    (∀ c ∈ before, IsContinuation c) → ¬IsContinuation bad →
    IsFaultyFor segment
      ("segment '" ++ segment ++ "' contains invalid character '" ++ bad.toString ++ "'")

/-- Why a text is no path: it is blank, or its first segment that is no word is at fault. -/
inductive IsRefusedFor (text : String) : String → Prop
  | blank : (∀ c ∈ text.toList, Text.isBlank c = true) → IsRefusedFor text "path is empty"
  | segment {before after : List String} {segment reason : String} :
    (∃ c ∈ text.toList, Text.isBlank c = false) → IsCutInto text (before ++ segment :: after) →
    (∀ other ∈ before, IsSegmentText other) → IsFaultyFor segment reason →
    IsRefusedFor text reason

theorem isFaultyFor_of_segmentFault? {segment : List Char} {fault : ReferenceFault}
    (faulty : segmentFault? segment = some fault) :
    IsFaultyFor (String.ofList segment) fault.message := by
  cases segment with
  | nil =>
    cases faulty
    exact .empty rfl
  | cons first rest =>
    rw [segmentFault?] at faulty
    by_cases start : startsSegment first = true
    · rw [if_pos start] at faulty
      obtain ⟨bad, found, rfl⟩ := Option.map_eq_some_iff.1 faulty
      obtain ⟨isBad, before, after, rfl, good⟩ := List.find?_eq_some_iff_append.1 found
      refine .character String.toList_ofList ((startsSegment_iff first).1 start)
        (fun c member => ?_) ?_
      · rw [← continuesSegment_iff]
        simpa using good c member
      · rw [← continuesSegment_iff]
        simpa using isBad
    · rw [if_neg start] at faulty
      cases faulty
      rw [startsSegment_iff] at start
      exact .start String.toList_ofList start

theorem isRefusedFor_of_pathFault? {text : String} {fault : ReferenceFault}
    (faulty : pathFault? text.toList = some fault) : IsRefusedFor text fault.message := by
  rw [pathFault?] at faulty
  by_cases blank : Text.allBlank text.toList = true
  · rw [if_pos blank] at faulty
    cases faulty
    exact .blank (List.all_eq_true.1 blank)
  · rw [if_neg blank] at faulty
    obtain ⟨before, segment, after, cut, isFault, words⟩ := List.findSome?_eq_some_iff.1 faulty
    have visible : ∃ c ∈ text.toList, Text.isBlank c = false := by
      simpa [Text.allBlank] using blank
    have isCut : IsCutInto text
        (before.map String.ofList ++ String.ofList segment :: after.map String.ofList) := by
      rw [isCutInto_iff, cut, List.map_append, List.map_cons]
    refine .segment visible isCut (fun other member => ?_) (isFaultyFor_of_segmentFault? isFault)
    obtain ⟨word, inBefore, rfl⟩ := List.mem_map.1 member
    rw [← isSegment_iff, String.toList_ofList, ← segmentFault?_eq_none_iff]
    exact words word inBefore

/-! ## References -/

namespace ParameterReference

variable {r s : ParameterReference}

/-- A reference has the segments of its path, and its path has no others. -/
theorem isPathOf_path_iff (r : ParameterReference) (segments : List String) :
    IsPathOf r.path segments ↔ segments = r.segments := by
  constructor
  · intro isPath
    exact isCutInto_iff.1 isPath.isCutInto
  · rintro rfl
    obtain ⟨segments, isPath⟩ := (exists_isPathOf_iff r.path).2 r.isPath
    rwa [isCutInto_iff.1 isPath.isCutInto] at isPath

theorem message_of_parse_eq_error {path : String} {e : ReferenceError}
    (refused : parse path = .error e) :
    ∃ reason, IsRefusedFor path reason ∧
      e.message = "invalid parameter reference '" ++ path ++ "': " ++ reason := by
  unfold parse at refused
  split at refused
  · cases refused
  · rename_i fault faulty
    cases refused
    exact ⟨fault.message, isRefusedFor_of_pathFault? faulty, rfl⟩

/-- A member has a reference exactly if its name has one, and that is moved below the parameter. -/
theorem member_eq_ok_iff {name : String} :
    r.member name = .ok s ↔ ∃ below, parse name = .ok below ∧ s = r.append below := by
  constructor
  · intro made
    have isPath := (Schema.exists_memberReference_iff (some r) name).1 ⟨s, made⟩
    obtain ⟨below, isBelow⟩ := (exists_parse_iff name).2 isPath
    refine ⟨below, isBelow, eq_of_path_eq ?_⟩
    rw [path_of_parse_eq_ok made, path_append, path_of_parse_eq_ok isBelow]
  · rintro ⟨below, isBelow, rfl⟩
    rw [member, ← path_of_parse_eq_ok isBelow, parse_eq_ok_iff, path_append]

theorem segments_append (above below : ParameterReference) :
    (above.append below).segments = above.segments ++ below.segments := by
  have joined : (above.append below).path.toList =
      above.path.toList ++ '.' :: below.path.toList := by
    rw [path_append]
    simp
  rw [segments, joined, Text.pieces_append_cons, List.map_append]
  rfl

/-- A member of a member is the one that the path of both leads to. -/
theorem exists_member_member_iff {t : ParameterReference} (name next : String) :
    (∃ s, r.member name = .ok s ∧ s.member next = .ok t) ↔
      r.member (name ++ "." ++ next) = .ok t := by
  constructor
  · rintro ⟨s, first, second⟩
    obtain ⟨one, isOne, rfl⟩ := member_eq_ok_iff.1 first
    obtain ⟨other, isOther, rfl⟩ := member_eq_ok_iff.1 second
    refine member_eq_ok_iff.2 ⟨one.append other, ?_, append_assoc r one other⟩
    rw [parse_eq_ok_iff, path_append, path_of_parse_eq_ok isOne, path_of_parse_eq_ok isOther]
  · intro made
    obtain ⟨below, isBelow, rfl⟩ := member_eq_ok_iff.1 made
    have isPath := (exists_parse_iff _).1 ⟨below, isBelow⟩
    have joined : (name ++ "." ++ next).toList = name.toList ++ '.' :: next.toList := by simp
    rw [joined, isReferencePath_append_cons, Bool.and_eq_true] at isPath
    obtain ⟨one, isOne⟩ := (exists_parse_iff name).2 isPath.1
    obtain ⟨other, isOther⟩ := (exists_parse_iff next).2 isPath.2
    refine ⟨r.append one, member_eq_ok_iff.2 ⟨one, isOne, rfl⟩, ?_⟩
    refine member_eq_ok_iff.2 ⟨other, isOther, eq_of_path_eq ?_⟩
    simp only [path_append, path_of_parse_eq_ok isBelow, path_of_parse_eq_ok isOne,
      path_of_parse_eq_ok isOther, String.append_assoc]

/-- **References are the paths, and members compose.**  A text has a reference exactly if it is a
path, whose segments are then those of the reference, and any other is refused for being blank or
for its first faulty segment.  Below any reference a name leads to a member exactly if it is a path
on its own, the segments of the name come behind those of the reference, and two names lead one
after the other to where they lead with a dot between them. -/
theorem parse_laws (text name next : String) (r : ParameterReference) :
    ((∃ s, parse text = .ok s) ↔ ∃ segments, IsPathOf text segments) ∧
      (∀ s, parse text = .ok s →
        ∀ segments, IsPathOf text segments ↔ segments = s.segments) ∧
      (∀ e, parse text = .error e → ∃ reason, IsRefusedFor text reason ∧
        e.message = "invalid parameter reference '" ++ text ++ "': " ++ reason) ∧
      ((∃ s, r.member name = .ok s) ↔ ∃ below, parse name = .ok below) ∧
      (∀ s below, r.member name = .ok s → parse name = .ok below →
        s.segments = r.segments ++ below.segments) ∧
      ∀ t, (∃ s, r.member name = .ok s ∧ s.member next = .ok t) ↔
        r.member (name ++ "." ++ next) = .ok t := by
  refine ⟨?_, ?_, fun e refused => message_of_parse_eq_error refused, ?_, ?_,
    fun t => exists_member_member_iff name next⟩
  · rw [exists_parse_iff, exists_isPathOf_iff]
  · intro s made
    rw [← path_of_parse_eq_ok made]
    exact isPathOf_path_iff s
  · constructor
    · rintro ⟨s, made⟩
      obtain ⟨below, isBelow, -⟩ := member_eq_ok_iff.1 made
      exact ⟨below, isBelow⟩
    · rintro ⟨below, isBelow⟩
      exact ⟨_, member_eq_ok_iff.2 ⟨below, isBelow, rfl⟩⟩
  · intro s below made isBelow
    obtain ⟨other, isOther, rfl⟩ := member_eq_ok_iff.1 made
    rw [isOther] at isBelow
    cases isBelow
    exact segments_append r _

-- The letters are those of ASCII, and a name may hold dots.
example : (parse "größe").toOption = none := by decide
example : (parse "a.b").toOption.map segments = some ["a", "b"] := by decide

end ParameterReference

end AzurePipelines
