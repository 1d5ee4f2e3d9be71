import DiceNotation.Expression.Printer
import DiceNotation.Value

/-!
# Displayed values

A value as text: what each die adds, the flat number if there is one, the total, and the success
level in braces. The dice say more than they add: a bonus die is followed by a star, and a
discarded one, which adds nothing, by a minus sign.
-/

namespace DiceNotation

def Status.mark : Status → Text
  | .kept => []
  | .discarded => ['-']
  | .bonus => ['*']

def Die.text (die : Die) : Text := Numeral.text die.signed ++ die.status.mark

namespace Roll

def items (roll : Roll) : List Text :=
  roll.dice.map Die.text
    ++ (if roll.constant = 0 then [] else [Numeral.signedText roll.constant])

def levelText (roll : Roll) : Text :=
  match roll.level with
  | none => []
  | some level => ' ' :: '\x7b' :: Numeral.text level ++ ['\x7d']

def text (roll : Roll) : Text :=
  [',', ' '].intercalate roll.items ++ (if roll.items.isEmpty then ['=', ' '] else [' ', '=', ' '])
    ++ Numeral.text roll.total ++ roll.levelText

def numbers (roll : Roll) : List Int :=
  roll.dice.map (·.value) ++ roll.constant :: roll.total :: roll.level.toList

end Roll

namespace Value

def text : Value → Text
  | .plain roll => roll.text
  | .versus roll left right =>
    left.text ++ [' ', '<', '>', ' '] ++ right.text ++ [' ', '=', ' '] ++ Numeral.text roll.total

def numbers : Value → List Int
  | .plain roll => roll.numbers
  | .versus roll left right => left.numbers ++ right.numbers ++ [roll.total]

def write (value : Value) : Except NumeralFault Text := Numeral.checked value.numbers value.text

/-- The text of a value behind the expression that it is a value of. -/
def writeFull (expression : Expression) (value : Value) : Except NumeralFault Text :=
  Numeral.checked (expression.numbers ++ value.numbers) (expression.text ++ ':' :: ' ' :: value.text)

def writeScores (values : List Value) : Except NumeralFault Text :=
  let scores := values.map score
  Numeral.checked scores (Text.lines (scores.map Numeral.text))

end Value

end DiceNotation
