import DiceNotation.Evaluation

/-!
# Drafts

Expressions in which parts are still missing. A draft is evaluated as an expression is, and what
stands to the left of the first gap is rolled before the gap is a fault.
-/

namespace DiceNotation

inductive Draft where
  | gap
  | whole (expression : Expression)
  | sum (left right : Draft)
  | difference (left right : Draft)
  | target (inner : Draft) (side : Side) (threshold : Int)
  | success (inner : Draft) (threshold step : Int)
  | comparison (left : Draft) (relation : Relation) (right : Draft)
deriving DecidableEq

namespace Draft

def expression? : Draft → Option Expression
  | .gap => none
  | .whole expression => some expression
  | .sum left right => return .sum (← left.expression?) (← right.expression?)
  | .difference left right => return .difference (← left.expression?) (← right.expression?)
  | .target inner side threshold => return .target (← inner.expression?) side threshold
  | .success inner threshold step => return .success (← inner.expression?) threshold step
  | .comparison left relation right =>
    return .comparison (← left.expression?) relation (← right.expression?)

variable {σ : Type} [Source σ]

def evaluate (limits : Limits) : Draft → Rolling σ Value
  | .gap => Rolling.fail .gap
  | .whole expression => expression.evaluate limits
  | .sum left right => do
    return (← left.evaluate limits).sum (← right.evaluate limits)
  | .difference left right => do
    return (← left.evaluate limits).difference (← right.evaluate limits)
  | .target inner side threshold => Value.target side threshold <$> inner.evaluate limits
  | .success inner threshold step => do
    MonadExcept.ofExcept ((← inner.evaluate limits).success threshold step)
  | .comparison left relation right => do
    return (← left.evaluate limits).comparison relation (← right.evaluate limits)

end Draft

end DiceNotation
