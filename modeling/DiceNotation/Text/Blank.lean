import DiceNotation.Text

/-!
# Blanks

The characters that separate tokens and that are trimmed from the ends of a text.
-/

namespace DiceNotation.Text

def blanks : List (Nat × Nat) :=
  [(0x09, 0x0d), (0x1c, 0x20), (0x85, 0x85), (0xa0, 0xa0), (0x1680, 0x1680), (0x2000, 0x200a),
    (0x2028, 0x2029), (0x202f, 0x202f), (0x205f, 0x205f), (0x3000, 0x3000)]

def isBlank (c : Char) : Bool := inRanges blanks c

/-- The blanks without the separators of information, U+001C to U+001F. -/
def isSpace (c : Char) : Bool := isBlank c && !(0x1c ≤ c.toNat && c.toNat ≤ 0x1f)

/-- The text without the characters of a class at its two ends. -/
def trim (isMargin : Char → Bool) (text : Text) : Text :=
  ((text.dropWhile isMargin).reverse.dropWhile isMargin).reverse

def strip (text : Text) : Text := trim isBlank text

@[simp] theorem strip_nil : strip [] = [] := rfl

end DiceNotation.Text
