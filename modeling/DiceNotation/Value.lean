import DiceNotation.Die

/-!
# Values

What an expression comes to when it is rolled. The figures of a value are kept as they are given:
that the total is the sum over the dice and the constant is a fact on evaluation, not on values.
-/

namespace DiceNotation

structure Roll where
  dice : List Die := []
  total : Int := 0
  constant : Int := 0
  level : Option Int := none
deriving DecidableEq

inductive Value where
  | plain (roll : Roll)
  /-- The values of two sides, and the roll that tells how they compare. -/
  | versus (roll : Roll) (left right : Value)
deriving DecidableEq

namespace Roll

def score (roll : Roll) : Int := roll.level.getD roll.total

def withStatus (status : Status) (roll : Roll) : List Die :=
  roll.dice.filter (·.status = status)

end Roll

namespace Value

def roll : Value → Roll
  | .plain roll => roll
  | .versus roll _ _ => roll

def operands : Value → Option (Value × Value)
  | .plain _ => none
  | .versus _ left right => some (left, right)

def score (value : Value) : Int := value.roll.score

/-- The value with a success level, all else being kept. -/
def withLevel (level : Int) : Value → Value
  | .plain roll => .plain { roll with level := some level }
  | .versus roll left right => .versus { roll with level := some level } left right

@[simp] theorem score_withLevel (level : Int) (value : Value) :
    (value.withLevel level).score = level := by
  cases value <;> rfl

end Value

end DiceNotation
