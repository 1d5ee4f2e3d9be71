import DiceNotation.Text.Blank
import DiceNotation.Lexeme

/-!
# Tokens

A text as the sequence of its lexemes, each with the offset at which it stands. Blanks separate
tokens and belong to none.
-/

namespace DiceNotation

structure Token where
  lexeme : Lexeme
  start : Nat
deriving DecidableEq

namespace Token

def stop (token : Token) : Nat := token.start + token.lexeme.text.length

/-- The tokens of a text that stands at offset `start`. -/
def scan (start : Nat) : Text → List Token
  | [] => []
  | c :: rest =>
    if Text.isBlank c then scan (start + 1) rest
    else
      let lexeme := Lexeme.first c rest
      ⟨lexeme, start⟩ ::
        scan (start + lexeme.text.length) ((c :: rest).drop lexeme.text.length)
termination_by text => text.length
decreasing_by
  · simp
  · have := List.length_pos_iff.mpr (Lexeme.text_first_ne_nil c rest)
    simp only [List.length_drop, List.length_cons]
    omega

end Token

/-- The tokens of a text, with a last one for its end. -/
def tokenize (text : Text) : List Token := Token.scan 0 text ++ [⟨.finish, text.length⟩]

end DiceNotation
