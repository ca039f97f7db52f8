import AzurePipelines.Text.Blank
import AzurePipelines.Text.Pieces

/-!
# References to template parameters

A parameter reference is a dotted path such as `settings.configuration`.  Its segments start with an
ASCII letter or `_` and go on with ASCII letters, digits, `_` or `-`; a `ParameterReference` carries
the proof that all of them do.  `ParameterReference.parse` refuses every other text, and names the
first segment that is at fault.
-/

namespace AzurePipelines

/-! ## The grammar of paths -/

/-- A character that may start a segment. -/
def startsSegment (c : Char) : Bool := c.isAlpha || c == '_'

/-- A character that may stand in a segment after the first. -/
def continuesSegment (c : Char) : Bool := c.isAlphanum || c == '_' || c == '-'

theorem continuesSegment_of_startsSegment {c : Char} (h : startsSegment c = true) :
    continuesSegment c = true := by
  rw [startsSegment, Bool.or_eq_true] at h
  rcases h with letter | underscore
  · simp [continuesSegment, Char.isAlphanum, letter]
  · simp [continuesSegment, underscore]

/-- One segment of a path. -/
def isSegment : List Char → Bool
  | [] => false
  | c :: rest => startsSegment c && rest.all continuesSegment

/-- One or more segments joined by dots. -/
def isReferencePath (path : List Char) : Bool := (Text.pieces '.' path).all isSegment

/-- Why a text is not a path. -/
inductive ReferenceFault where
  | blankPath
  | emptySegment
  | badStart (segment : String)
  | badCharacter (segment : String) (character : Char)
deriving DecidableEq, Repr

/-- A text that was refused as a path, and the reason. -/
structure ReferenceError where
  text : String
  fault : ReferenceFault
deriving DecidableEq, Repr

def ReferenceFault.message : ReferenceFault → String
  | .blankPath => "path is empty"
  | .emptySegment => "path has an empty segment"
  | .badStart segment => "segment '" ++ segment ++ "' must start with a letter or '_'"
  | .badCharacter segment character =>
    "segment '" ++ segment ++ "' contains invalid character '" ++ character.toString ++ "'"

def ReferenceError.message (e : ReferenceError) : String :=
  "invalid parameter reference '" ++ e.text ++ "': " ++ e.fault.message

/-- What is wrong with a segment: its emptiness, else its first character, else the first character
that may not follow. -/
def segmentFault? : List Char → Option ReferenceFault
  | [] => some .emptySegment
  | c :: rest =>
    if startsSegment c then
      (rest.find? (!continuesSegment ·)).map (.badCharacter (String.ofList (c :: rest)))
    else some (.badStart (String.ofList (c :: rest)))

/-- A blank path is called empty; any other is blamed on its first malformed segment. -/
def pathFault? (path : List Char) : Option ReferenceFault :=
  if Text.allBlank path then some .blankPath else (Text.pieces '.' path).findSome? segmentFault?

/-! ### Agreement of grammar and faults -/

theorem segmentFault?_eq_none_iff (segment : List Char) :
    segmentFault? segment = none ↔ isSegment segment = true := by
  match segment with
  | [] => simp [segmentFault?, isSegment]
  | c :: rest =>
    by_cases h : startsSegment c = true
    · simp [segmentFault?, isSegment, h]
    · simp [segmentFault?, isSegment, h]

theorem isBlank_eq_false_of_startsSegment {c : Char} (h : startsSegment c = true) :
    Text.isBlank c = false := by
  have letters : c.isAlpha =
      (decide (c.val ≥ 'A'.val ∧ c.val ≤ 'Z'.val) ||
        decide (c.val ≥ 'a'.val ∧ c.val ≤ 'z'.val)) := by
    delta Char.isAlpha Char.isUpper Char.isLower
    simp
  simp only [startsSegment, letters, Bool.or_eq_true, decide_eq_true_eq, beq_iff_eq] at h
  rcases h with h | rfl
  · simp only [Text.isBlank, Char.toNat] at *
    simp only [UInt32.le_iff_toNat_le, ge_iff_le] at h
    simp only [Bool.or_eq_false_iff, Bool.and_eq_false_iff, decide_eq_false_iff_not,
      beq_eq_false_iff_ne]
    have e1 : ('A' : Char).val.toNat = 65 := rfl
    have e2 : ('Z' : Char).val.toNat = 90 := rfl
    have e3 : ('a' : Char).val.toNat = 97 := rfl
    have e4 : ('z' : Char).val.toNat = 122 := rfl
    omega
  · rfl

theorem pathFault?_eq_none_iff (path : List Char) :
    pathFault? path = none ↔ isReferencePath path = true := by
  constructor
  · intro h
    unfold pathFault? at h
    split at h
    · simp at h
    · simpa [isReferencePath, segmentFault?_eq_none_iff] using h
  · intro h
    have notBlank : ¬ Text.allBlank path = true := by
      match path with
      | [] => simp [isReferencePath, Text.pieces, isSegment] at h
      | c :: rest =>
        have start : startsSegment c = true := by
          by_cases hc : c = '.'
          · simp [isReferencePath, Text.pieces, hc, isSegment] at h
          · cases hp : Text.pieces '.' rest with
            | nil => exact absurd hp (Text.pieces_ne_nil _ _)
            | cons first others =>
              simp [isReferencePath, Text.pieces, hc, hp, isSegment] at h
              exact h.1.1
        simp [isBlank_eq_false_of_startsSegment start]
    simp only [pathFault?, notBlank]
    simpa [isReferencePath, segmentFault?_eq_none_iff] using h

/-! ## References -/

/-- A reference to a template parameter or to a member of one. -/
structure ParameterReference where
  path : String
  isPath : isReferencePath path.toList = true
deriving DecidableEq

namespace ParameterReference

/-- Reads a dotted path. -/
def parse (path : String) : Except ReferenceError ParameterReference :=
  match h : pathFault? path.toList with
  | none => .ok ⟨path, (pathFault?_eq_none_iff _).1 h⟩
  | some fault => .error ⟨path, fault⟩

/-- The dotted segments of the path. -/
def segments (r : ParameterReference) : List String :=
  (Text.pieces '.' r.path.toList).map String.ofList

/-- The reference as it stands inside an expression, e.g. `parameters.settings.configuration`. -/
def expression (r : ParameterReference) : String := "parameters." ++ r.path

/-- The token that a template replaces when it is expanded, e.g. `${{ parameters.version }}`. -/
def token (r : ParameterReference) : String := "$\x7b\x7b " ++ r.expression ++ " \x7d\x7d"

/-- The reference to a member of a parameter that is a record. -/
def member (r : ParameterReference) (name : String) : Except ReferenceError ParameterReference :=
  parse (r.path ++ "." ++ name)

theorem eq_of_path_eq {one other : ParameterReference} (same : one.path = other.path) :
    one = other := by
  cases one
  cases other
  cases same
  rfl

/-- A path holds dots, and what may stand in a segment. -/
theorem eq_dot_or_continuesSegment (r : ParameterReference) {c : Char} (h : c ∈ r.path.toList) :
    c = '.' ∨ continuesSegment c = true := by
  by_cases dot : c = '.'
  · exact .inl dot
  · obtain ⟨piece, inPieces, inPiece⟩ := Text.exists_mem_pieces h dot
    have segment := List.all_eq_true.1 r.isPath piece inPieces
    cases piece with
    | nil => cases inPiece
    | cons d rest =>
      rw [isSegment, Bool.and_eq_true] at segment
      rcases List.mem_cons.1 inPiece with rfl | inRest
      · exact .inr (continuesSegment_of_startsSegment segment.1)
      · exact .inr (List.all_eq_true.1 segment.2 c inRest)

end ParameterReference

end AzurePipelines
