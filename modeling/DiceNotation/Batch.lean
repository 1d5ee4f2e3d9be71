import DiceNotation.Evaluation
import DiceNotation.Tally

/-!
# Batches

The same expression many times, on one source: the list of values, or the tally of their scores.
-/

namespace DiceNotation.Expression

variable {σ : Type} [Source σ]

def run (limits : Limits) (expression : Expression) (count : Int) : Rolling σ (List Value) :=
  if count < 1 then Rolling.fail (.tooFew .run count)
  else Rolling.times count.toNat (expression.evaluate limits)

def sample (limits : Limits) (expression : Expression) (count : Int) : Rolling σ Tally :=
  if count < 1 then Rolling.fail (.tooFew .sample count)
  else
    (fun scores => Tally.ofScores scores)
      <$> Rolling.times count.toNat (Value.score <$> expression.evaluate limits)

end DiceNotation.Expression
