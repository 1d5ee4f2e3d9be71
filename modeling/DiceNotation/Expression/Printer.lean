import DiceNotation.Lexeme
import DiceNotation.Numeral

/-!
# Canonical notation

Every tree has a canonical text, with ASCII digits, one space around each sign between two
operands and none elsewhere, and no parentheses around a sum. Trees that differ may share a
text. A text that would show a number of more than `Numeral.digitLimit` digits is not written.
-/

namespace DiceNotation

namespace Modifier

/-- The symbol of an explosion, doubled if it goes on. -/
def explosionText (once twice : Symbol) (threshold : Option Int) (again : Bool) : Text :=
  (if again then twice.text else once.text) ++ (threshold.map Numeral.text).getD []

def text : Modifier → Text
  | .explode threshold again => explosionText .bang .twoBangs threshold again
  | .explodeEach threshold again => explosionText .star .twoStars threshold again
  | .addEach amount => Symbol.twoPluses.text ++ Numeral.text amount
  | .subtractEach amount => Symbol.twoMinuses.text ++ Numeral.text amount
  | .takeLow count => Symbol.backquote.text ++ Numeral.text count
  | .takeHigh count => Symbol.caret.text ++ Numeral.text count
  | .takeMiddle count => Symbol.tilde.text ++ Numeral.text count
  | .advantage => Keyword.advantage.text
  | .disadvantage => Keyword.disadvantage.text
  | .bestGroup => Keyword.bestGroup.text

def numbers : Modifier → List Int
  | .explode threshold _ => threshold.toList
  | .explodeEach threshold _ => threshold.toList
  | .addEach n | .subtractEach n | .takeLow n | .takeHigh n | .takeMiddle n => [n]
  | .advantage | .disadvantage | .bestGroup => []

end Modifier

namespace Pool

/-- The label in use, if any; an empty one is none. -/
def marker? (pool : Pool) : Option Text := pool.label.filter (!·.isEmpty)

def text (pool : Pool) : Text :=
  Numeral.text pool.count ++ 'd' :: pool.marker?.getD (Numeral.text pool.sides)
    ++ (pool.modifier.map Modifier.text).getD []

def numbers (pool : Pool) : List Int :=
  pool.count :: (if pool.marker?.isSome then [] else [pool.sides])
    ++ (pool.modifier.map Modifier.numbers).getD []

end Pool

namespace Expression

def text : Expression → Text
  | .number value => Numeral.text value
  | .pool dice => dice.text
  | .sum left right => left.text ++ [' ', '+', ' '] ++ right.text
  | .difference left right => left.text ++ [' ', '-', ' '] ++ right.text
  | .target inner .high threshold => inner.text ++ '[' :: Numeral.text threshold ++ [']']
  | .target inner .low threshold => inner.text ++ '(' :: Numeral.text threshold ++ [')']
  | .success inner threshold step =>
    inner.text ++ '\x7b' :: Numeral.text threshold
      ++ (if step = 1 then [] else ',' :: Numeral.text step) ++ ['\x7d']
  | .comparison left relation right =>
    left.text ++ ' ' :: relation.symbol.text ++ ' ' :: right.text

def numbers : Expression → List Int
  | .number value => [value]
  | .pool dice => dice.numbers
  | .sum left right | .difference left right => left.numbers ++ right.numbers
  | .target inner _ threshold => inner.numbers ++ [threshold]
  | .success inner threshold step =>
    inner.numbers ++ threshold :: (if step = 1 then [] else [step])
  | .comparison left _ right => left.numbers ++ right.numbers

def write (expression : Expression) : Except NumeralFault Text :=
  Numeral.checked expression.numbers expression.text

theorem write_eq_ok_iff (expression : Expression) (shown : Text) :
    expression.write = .ok shown ↔
      expression.numbers.all Numeral.fits = true ∧ expression.text = shown := by
  unfold write Numeral.checked
  split <;> simp [*]

end Expression

end DiceNotation
