import Sentential.Text.CodeRange

/-!
# Blanks

The characters that may stand anywhere between the symbols of a text and mean nothing there: the
white space of the Unicode standard, twenty-five characters in ten ranges.
-/

namespace Sentential.Text

/-- The ranges of white space, in ascending order. -/
def blanks : List CodeRange :=
  [⟨0x09, 0x0D⟩, ⟨0x20, 0x20⟩, ⟨0x85, 0x85⟩, ⟨0xA0, 0xA0⟩, ⟨0x1680, 0x1680⟩, ⟨0x2000, 0x200A⟩,
    ⟨0x2028, 0x2029⟩, ⟨0x202F, 0x202F⟩, ⟨0x205F, 0x205F⟩, ⟨0x3000, 0x3000⟩]

/-- The character is white space. -/
def isBlank (c : Char) : Bool := inRanges blanks c

/-- The characters without the blanks at either end. -/
def trim (cs : List Char) : List Char :=
  ((cs.dropWhile isBlank).reverse.dropWhile isBlank).reverse

theorem isUpper_eq_false_of_isBlank {c : Char} (h : isBlank c = true) : c.isUpper = false := by
  obtain ⟨r, hr, h₁, h₂⟩ := inRanges_iff.mp h
  rw [Bool.eq_false_iff, ne_eq, isUpper_iff]
  simp only [blanks, List.mem_cons, List.not_mem_nil, or_false] at hr
  rcases hr with rfl | rfl | rfl | rfl | rfl | rfl | rfl | rfl | rfl | rfl <;>
    dsimp only at h₁ h₂ <;> omega

end Sentential.Text
