import DiceNotation.Text

/-!
# Filled lines

Words on lines of a least number, in order, with one space between two words of a line. A word
that is longer than a line begins on the line it comes to and is cut where lines end.
-/

namespace DiceNotation.Text

/-- A word cut into pieces of a given length, but for the last one. -/
def pieces (length : Nat) (word : Text) : List Text :=
  if _h : length = 0 ∨ word.length ≤ length then [word]
  else word.take length :: pieces length (word.drop length)
termination_by word.length
decreasing_by
  simp only [List.length_drop]
  omega

/-- The lines that are full, last first, and the line that is being filled. -/
structure Filling where
  full : List Text
  line : Text

/-- The first word of a line stands at its margin. -/
def Filling.add (width : Nat) (filling : Filling) (word : Text) : Filling :=
  let gap : Text := if filling.full.isEmpty && filling.line.isEmpty then [] else [' ']
  if filling.line.length + gap.length + word.length ≤ width then
    ⟨filling.full, filling.line ++ gap ++ word⟩
  else if word.length ≤ width then ⟨filling.line :: filling.full, word⟩
  else
    let line := filling.line ++ if filling.line.length < width then gap else []
    let room := width - line.length
    let parts := pieces width (word.drop room)
    ⟨parts.dropLast.reverse ++ (line ++ word.take room) :: filling.full, parts.getLast?.getD []⟩

def fill (width : Nat) (words : List Text) : List Text :=
  let filling := words.foldl (Filling.add width) ⟨[], []⟩
  (filling.line :: filling.full).reverse

end DiceNotation.Text
