import DiceNotation.Reading.Grammar
import DiceNotation.Token

/-!
# Reading dice notation

Reading takes the longest beginning of a text that is an expression and keeps the rest as it is.
It has no outcome "wrong text"; its one fault is a number that is too long.
-/

namespace DiceNotation

/-- What became of a text. The remainder is missing when nothing is left, and the reason is given
when the text behind the expression begins with an opening that could have continued it. -/
structure Reading where
  expression : Option Expression
  consumed : Text
  remainder : Option Text
  reason : Option Reason
deriving DecidableEq

namespace Reading

def complete (reading : Reading) : Bool :=
  reading.expression.isSome && reading.remainder.isNone

theorem complete_iff (reading : Reading) :
    reading.complete = true ↔ reading.expression ≠ none ∧ reading.remainder = none := by
  simp [complete, Option.isSome_iff_ne_none]

/-- The text up to the end of the `used`-th token. -/
def consumedBy (text : Text) (tokens : List Token) (used : Nat) : Text :=
  match (tokens.take used).getLast? with
  | some last => Text.strip (text.take last.stop)
  | none => []

/-- The text from the first token that is not among the `used` ones. -/
def remainderAfter (text : Text) (tokens : List Token) (used : Nat) : Option Text :=
  (tokens.drop used).head?.map fun next => Text.strip (text.drop next.start)

def ofTokens (text : Text) (tokens : List Token) : Option (Phrase Expression) → Reading
  | some phrase =>
    let used := tokens.length - phrase.rest.length
    { expression := some phrase.value
      consumed := consumedBy text tokens used
      remainder := remainderAfter text tokens used
      reason := phrase.reason }
  | none =>
    { expression := none
      consumed := []
      remainder := remainderAfter text tokens 0
      reason := none }

end Reading

def read (text : Text) : Except NumeralFault Reading :=
  let tokens := Token.scan 0 text
  (Grammar.comparison (tokens.map Token.lexeme)).map (Reading.ofTokens text tokens)

end DiceNotation
