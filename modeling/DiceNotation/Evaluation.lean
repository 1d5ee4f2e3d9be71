import DiceNotation.Pool

/-!
# Evaluation

Rolls an expression, its pools from left to right. The operations on values are total but for
the success level with a step of zero, so every other fault comes from a pool or from the source.
-/

namespace DiceNotation

/-- One level at the threshold, and one more for each full step above it. -/
def successLevel (total threshold step : Int) : Except Fault Int :=
  if total < threshold then .ok 0
  else if step = 0 then .error .zeroStep
  else .ok (1 + Int.fdiv (total - threshold) step)

namespace Relation

/-- `1` or `0` for a relation that holds or not, and for the order the sign of the difference. -/
def compare (left : Int) (relation : Relation) (right : Int) : Int :=
  match relation with
  | .greater => (decide (right < left)).toInt
  | .less => (decide (left < right)).toInt
  | .atLeast => (decide (right ≤ left)).toInt
  | .atMost => (decide (left ≤ right)).toInt
  | .equal => (decide (left = right)).toInt
  | .order => (left - right).sign

end Relation

/-- A die that counts as `1` for a hit and as `0` otherwise, unless it is discarded. -/
def Die.recode (side : Side) (threshold : Int) (die : Die) : Die :=
  if die.status = .discarded then die
  else
    let hit : Bool := match side with
      | .high => threshold ≤ die.value
      | .low => die.value ≤ threshold
    { die with value := if hit then 1 else 0 }

namespace Value

def sum (left right : Value) : Value :=
  .plain {
    dice := left.roll.dice ++ right.roll.dice
    total := left.roll.total + right.roll.total
    constant := left.roll.constant + right.roll.constant }

def difference (left right : Value) : Value :=
  .plain {
    dice := left.roll.dice ++ right.roll.dice.map Die.flip
    total := left.roll.total - right.roll.total
    constant := left.roll.constant - right.roll.constant }

def target (side : Side) (threshold : Int) (inner : Value) : Value :=
  let dice := inner.roll.dice.map (Die.recode side threshold)
  .plain {
    dice
    total := Die.total dice + inner.roll.constant
    constant := inner.roll.constant }

def success (threshold step : Int) (inner : Value) : Except Fault Value :=
  (inner.withLevel ·) <$> successLevel inner.roll.total threshold step

def comparison (left : Value) (relation : Relation) (right : Value) : Value :=
  .versus { total := relation.compare left.score right.score } left right

end Value

namespace Expression

variable {σ : Type} [Source σ]

def evaluate (limits : Limits) : Expression → Rolling σ Value
  | .number n => pure (.plain { total := n, constant := n })
  | .pool dice => .plain <$> dice.roll limits
  | .sum left right => do
    return (← left.evaluate limits).sum (← right.evaluate limits)
  | .difference left right => do
    return (← left.evaluate limits).difference (← right.evaluate limits)
  | .target inner side threshold => Value.target side threshold <$> inner.evaluate limits
  | .success inner threshold step => do
    MonadExcept.ofExcept ((← inner.evaluate limits).success threshold step)
  | .comparison left relation right => do
    return (← left.evaluate limits).comparison relation (← right.evaluate limits)

end Expression

end DiceNotation
