/-!
# Text

A text is a list of characters. Offsets and lengths count characters, and a set of characters is
a list of inclusive ranges of code points.
-/

namespace DiceNotation

abbrev Text := List Char

namespace Text

/-- Whether the code point of `c` lies in one of the ranges, both ends included. -/
def inRanges (ranges : List (Nat × Nat)) (c : Char) : Bool :=
  ranges.any fun range => range.1 ≤ c.toNat && c.toNat ≤ range.2

theorem inRanges_iff (ranges : List (Nat × Nat)) (c : Char) :
    inRanges ranges c = true ↔ ∃ range ∈ ranges, range.1 ≤ c.toNat ∧ c.toNat ≤ range.2 := by
  simp [inRanges]

/-- The parts in order, one to a line, with no line end after the last. -/
def lines (parts : List Text) : Text := ['\n'].intercalate parts

end Text

end DiceNotation
