/-!
# Blanks and control characters

The two character classes of the Unicode standard that the library asks about: the property
`White_Space` (`isBlank`) and the category `Cc` (`isControl`).  Core's `Char.isWhitespace` knows
four of the twenty-five blanks.
-/

namespace AzurePipelines.Text

/-- The characters with the Unicode property `White_Space`. -/
def isBlank (c : Char) : Bool :=
  let n := c.toNat
  (9 ≤ n && n ≤ 13) || n == 0x20 || n == 0x85 || n == 0xA0 || n == 0x1680 ||
    (0x2000 ≤ n && n ≤ 0x200A) || n == 0x2028 || n == 0x2029 || n == 0x202F || n == 0x205F ||
    n == 0x3000

/-- The characters of the Unicode category `Cc`: the control codes below the space, and those from
`DELETE` to the end of the second control block. -/
def isControl (c : Char) : Bool :=
  c.toNat < 0x20 || (0x7F ≤ c.toNat && c.toNat ≤ 0x9F)

/-- Every character of the text is blank; so is the empty text. -/
def allBlank (text : List Char) : Bool := text.all isBlank

@[simp] theorem allBlank_nil : allBlank [] = true := rfl

@[simp] theorem allBlank_cons (c : Char) (text : List Char) :
    allBlank (c :: text) = (isBlank c && allBlank text) := rfl

/-- The text without the blanks at its end. -/
def trimEnd : List Char → List Char
  | [] => []
  | c :: text => if allBlank (c :: text) then [] else c :: trimEnd text

/-- What `trimEnd` takes away is blank. -/
theorem exists_trimEnd_append (text : List Char) :
    ∃ blanks, allBlank blanks = true ∧ trimEnd text ++ blanks = text := by
  induction text with
  | nil => exact ⟨[], rfl, rfl⟩
  | cons c text ih =>
    by_cases h : allBlank (c :: text) = true
    · exact ⟨c :: text, h, by simp [trimEnd, h]⟩
    · obtain ⟨blanks, hb, ht⟩ := ih
      exact ⟨blanks, hb, by simp [trimEnd, h, ht]⟩

end AzurePipelines.Text
