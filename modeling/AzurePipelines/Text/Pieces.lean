/-!
# Texts in pieces

`pieces sep text` cuts a text at every occurrence of one character, and there is always at least
one piece.  Putting the separator back between the pieces gives the text (`intercalate_pieces`); no
piece holds the separator (`not_mem_of_mem_pieces`), and all other characters stand in one
(`exists_mem_pieces`).  Texts on both sides of a separator are cut each for itself
(`pieces_append_cons`).
-/

namespace AzurePipelines.Text

/-- The pieces of a text between the occurrences of `sep`. -/
def pieces (sep : Char) : List Char → List (List Char)
  | [] => [[]]
  | c :: text =>
    if c = sep then [] :: pieces sep text else (pieces sep text).modifyHead (c :: ·)

theorem pieces_ne_nil (sep : Char) (text : List Char) : pieces sep text ≠ [] := by
  induction text with
  | nil => simp [pieces]
  | cons c text ih =>
    by_cases h : c = sep
    · simp [pieces, h]
    · simpa [pieces, h] using ih

theorem intercalate_modifyHead_cons (sep : List Char) (c : Char) {ps : List (List Char)}
    (h : ps ≠ []) : sep.intercalate (ps.modifyHead (c :: ·)) = c :: sep.intercalate ps := by
  match ps, h with
  | [piece], _ => rfl
  | piece :: next :: rest, _ => simp [List.intercalate]

theorem intercalate_nil_cons (sep : List Char) {ps : List (List Char)} (h : ps ≠ []) :
    sep.intercalate ([] :: ps) = sep ++ sep.intercalate ps := by
  match ps, h with
  | piece :: rest, _ => simp [List.intercalate]

/-- Joining the pieces with the separator gives the text back. -/
theorem intercalate_pieces (sep : Char) (text : List Char) :
    [sep].intercalate (pieces sep text) = text := by
  induction text with
  | nil => rfl
  | cons c text ih =>
    by_cases h : c = sep
    · simp [pieces, h, intercalate_nil_cons _ (pieces_ne_nil sep text), ih]
    · simp [pieces, h, intercalate_modifyHead_cons _ _ (pieces_ne_nil sep text), ih]

/-- No piece holds the separator. -/
theorem not_mem_of_mem_pieces {sep : Char} {text piece : List Char} (h : piece ∈ pieces sep text) :
    sep ∉ piece := by
  induction text generalizing piece with
  | nil => simp_all [pieces]
  | cons c text ih =>
    by_cases hc : c = sep
    · simp only [pieces, hc, if_true, List.mem_cons] at h
      rcases h with rfl | h
      · simp
      · exact ih h
    · simp only [pieces, hc, if_false] at h
      match hp : pieces sep text, h with
      | first :: rest, h =>
        simp only [List.modifyHead_cons, List.mem_cons] at h
        rcases h with rfl | h
        · have : sep ∉ first := ih (by simp [hp])
          simp [this, Ne.symm hc]
        · exact ih (by simp [hp, h])

/-- Pieces hold only what the text holds. -/
theorem mem_of_mem_pieces {sep c : Char} {text piece : List Char} (h : piece ∈ pieces sep text)
    (member : c ∈ piece) : c ∈ text := by
  induction text generalizing piece with
  | nil =>
    rw [pieces, List.mem_singleton] at h
    rwa [← h]
  | cons d text ih =>
    by_cases isSep : d = sep
    · rw [pieces, if_pos isSep] at h
      rcases List.mem_cons.1 h with rfl | h
      · cases member
      · exact List.mem_cons_of_mem d (ih h member)
    · rw [pieces, if_neg isSep] at h
      obtain ⟨first, others, shape⟩ := List.exists_cons_of_ne_nil (pieces_ne_nil sep text)
      rw [shape, List.modifyHead_cons] at h
      rcases List.mem_cons.1 h with rfl | h
      · rcases List.mem_cons.1 member with rfl | member
        · exact List.mem_cons_self
        · exact List.mem_cons_of_mem d (ih (by rw [shape]; exact List.mem_cons_self) member)
      · exact List.mem_cons_of_mem d (ih (by rw [shape]; exact List.mem_cons_of_mem first h) member)

/-- Every other character of a text stands in one of its pieces. -/
theorem exists_mem_pieces {sep c : Char} {text : List Char} (member : c ∈ text)
    (other : c ≠ sep) : ∃ piece ∈ pieces sep text, c ∈ piece := by
  induction text with
  | nil => cases member
  | cons d text ih =>
    by_cases isSep : d = sep
    · obtain ⟨piece, inPieces, inPiece⟩ :=
        ih ((List.mem_cons.1 member).resolve_left (isSep ▸ other))
      refine ⟨piece, ?_, inPiece⟩
      simp [pieces, isSep, inPieces]
    · cases shape : pieces sep text with
      | nil => exact absurd shape (pieces_ne_nil sep text)
      | cons first rest =>
        simp only [pieces, isSep, if_false, shape, List.modifyHead_cons]
        rcases List.mem_cons.1 member with rfl | member
        · exact ⟨c :: first, List.mem_cons_self, List.mem_cons_self⟩
        · obtain ⟨piece, inPieces, inPiece⟩ := ih member
          rw [shape] at inPieces
          rcases List.mem_cons.1 inPieces with rfl | later
          · exact ⟨d :: piece, List.mem_cons_self, List.mem_cons_of_mem d inPiece⟩
          · exact ⟨piece, List.mem_cons_of_mem _ later, inPiece⟩

/-- The separator ends a piece wherever it stands. -/
theorem pieces_append_cons (sep : Char) (above below : List Char) :
    pieces sep (above ++ sep :: below) = pieces sep above ++ pieces sep below := by
  induction above with
  | nil => simp [pieces]
  | cons c above ih =>
    by_cases h : c = sep
    · simp [pieces, h, ih]
    · cases shape : pieces sep above with
      | nil => exact absurd shape (pieces_ne_nil sep above)
      | cons first others => simp [pieces, h, ih, shape]

/-- What is in front of a text, without the separator, goes to its first piece. -/
theorem pieces_append_of_notMem {sep : Char} {start : List Char} (apart : sep ∉ start)
    (text : List Char) :
    pieces sep (start ++ text) = (pieces sep text).modifyHead (start ++ ·) := by
  induction start with
  | nil =>
    rw [List.nil_append]
    cases pieces sep text <;> rfl
  | cons c start ih =>
    rw [List.mem_cons, not_or] at apart
    rw [List.cons_append, pieces, if_neg (Ne.symm apart.1), ih apart.2, List.modifyHead_modifyHead]
    rfl

/-- Without the separator a text is its only piece. -/
theorem pieces_of_notMem {sep : Char} {text : List Char} (apart : sep ∉ text) :
    pieces sep text = [text] := by
  have whole := pieces_append_of_notMem apart []
  rwa [List.append_nil, pieces, List.modifyHead_cons, List.append_nil] at whole

/-- The lines of a text: its pieces between line feeds. -/
def lines (text : List Char) : List (List Char) := pieces '\n' text

end AzurePipelines.Text
