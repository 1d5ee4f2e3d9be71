import DiceNotation.Text

/-!
# Expressions

Trees of dice notation. Every number may be any integer and every node may stand under every
other; which of these trees have notation of their own is not decided here.
-/

namespace DiceNotation

/-- What is done to the dice of a pool. A missing threshold stands for the largest face. -/
inductive Modifier where
  /-- Another set of dice when all dice reach the threshold. -/
  | explode (threshold : Option Int) (again : Bool)
  /-- Another die for each die that reaches the threshold. -/
  | explodeEach (threshold : Option Int) (again : Bool)
  | addEach (amount : Int)
  | subtractEach (amount : Int)
  | takeLow (count : Int)
  | takeHigh (count : Int)
  | takeMiddle (count : Int)
  | advantage
  | disadvantage
  | bestGroup
deriving DecidableEq

/-- Equal dice that are rolled together. The label is the marker that the size was written
with, where it was not written as a number. -/
structure Pool where
  count : Int
  sides : Int
  modifier : Option Modifier
  label : Option Text
deriving DecidableEq

/-- The side of a threshold on which a die is a hit; the threshold itself is on both. -/
inductive Side where
  | high
  | low
deriving DecidableEq

inductive Relation where
  | greater
  | less
  | atLeast
  | atMost
  | equal
  /-- Tells which of the two sides is the larger one. -/
  | order
deriving DecidableEq

inductive Expression where
  | number (value : Int)
  | pool (pool : Pool)
  | sum (left right : Expression)
  | difference (left right : Expression)
  /-- Counts the hits among the dice. -/
  | target (inner : Expression) (side : Side) (threshold : Int)
  /-- One level at the threshold, and one more for each full step above it. -/
  | success (inner : Expression) (threshold step : Int)
  | comparison (left : Expression) (relation : Relation) (right : Expression)
deriving DecidableEq

end DiceNotation
