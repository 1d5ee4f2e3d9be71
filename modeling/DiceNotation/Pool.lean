import DiceNotation.Pool.Explosion
import DiceNotation.Pool.Selection

/-!
# Pools

Rolling a pool. A pool that is refused draws no face; whether it is refused depends on the pool
and the limits alone.
-/

namespace DiceNotation

/-- The largest pool and the largest die that are rolled. -/
structure Limits where
  dice : Int := 1000
  sides : Int := 10000
deriving DecidableEq

namespace Pool

/-- The threshold of an explosion that would go on for ever, since no face is below it. -/
def endlessThreshold? (pool : Pool) : Option Int :=
  match pool.modifier with
  | some (.explode threshold true) | some (.explodeEach threshold true) =>
    let threshold := threshold.getD pool.sides
    if threshold ≤ 1 then some threshold else none
  | _ => none

/-- What is wrong with the pool. -/
def fault? (limits : Limits) (pool : Pool) : Option PoolFault :=
  if pool.count < 0 then some (.negativeCount pool.count)
  else if pool.sides < 1 then some (.noSides pool.sides)
  else if limits.dice < pool.count then some (.tooManyDice pool.count limits.dice)
  else if limits.sides < pool.sides then some (.tooManySides pool.sides limits.sides)
  else pool.endlessThreshold?.map (.endless pool)

variable {σ : Type} [Source σ]

/-- The dice of the pool without its modifier. -/
def plainDice (pool : Pool) : Rolling σ (List Die) :=
  Rolling.dice pool.count.toNat pool.sides .kept

/-- The dice of two rolls, with those of the better one kept. -/
def twiceDice (high : Bool) (pool : Pool) : Rolling σ (List Die) := do
  let first ← pool.plainDice
  let second ← pool.plainDice
  return Selection.betterSet high first second

/-- The dice of a pool with which nothing is wrong. -/
def dice (pool : Pool) : Rolling σ (List Die) :=
  match pool.modifier with
  | none => pool.plainDice
  | some (.explode threshold again) =>
    Explosion.sets pool.count.toNat pool.sides (threshold.getD pool.sides) again
  | some (.explodeEach threshold again) =>
    Explosion.chains pool.count.toNat pool.sides (threshold.getD pool.sides) again
  | some (.addEach amount) =>
    List.map (fun die => { die with value := die.value + amount }) <$> pool.plainDice
  | some (.subtractEach amount) =>
    List.map (fun die => { die with value := die.value - amount }) <$> pool.plainDice
  | some (.takeLow count) => Selection.lowest count <$> pool.plainDice
  | some (.takeHigh count) => Selection.highest count <$> pool.plainDice
  | some (.takeMiddle count) => Selection.middle count <$> pool.plainDice
  | some .bestGroup => Selection.bestGroup <$> pool.plainDice
  | some .advantage => pool.twiceDice true
  | some .disadvantage => pool.twiceDice false

def roll (limits : Limits) (pool : Pool) : Rolling σ Roll :=
  match pool.fault? limits with
  | some fault => Rolling.fail (.pool fault)
  | none => (fun dice => { dice, total := Die.total dice }) <$> pool.dice

end Pool

end DiceNotation
