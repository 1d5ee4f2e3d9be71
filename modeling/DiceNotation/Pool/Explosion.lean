import DiceNotation.Rolling

/-!
# Explosions

More dice for dice that reach a threshold: a whole set for a set, or one die for each. Whether an
explosion that goes on can end at all is not asked here. With a source that can run out it does
end, in the fault of the source if not before.
-/

namespace DiceNotation.Explosion

variable {σ : Type} [Source σ]

def Reaches (threshold : Int) (dice : List Die) : Prop :=
  dice ≠ [] ∧ ∀ die ∈ dice, threshold ≤ die.value

instance (threshold : Int) (dice : List Die) : Decidable (Reaches threshold dice) :=
  inferInstanceAs (Decidable (_ ∧ _))

/-- Rolls another set while the newest one reaches the threshold, at most once unless `again`.
The sets before and up to the newest are in `done`, last die first. -/
def setsFrom (sides threshold : Int) (again : Bool) (newest done : List Die) (source : σ) :
    EStateM.Result Fault σ (List Die) :=
  if hnewest : Reaches threshold newest then
    match hroll : Rolling.dice newest.length sides .bonus source with
    | .error fault after => .error fault after
    | .ok next after =>
      have : Source.left after < Source.left source := by
        have := (Rolling.left_dice hroll).2
        have := List.length_pos_iff.mpr hnewest.1
        omega
      if again then setsFrom sides threshold again next (next.reverse ++ done) after
      else .ok (next.reverse ++ done).reverse after
  else .ok done.reverse source
termination_by Source.left source

/-- Rolls sets of `count` dice, one more for each set that reaches the threshold. -/
def sets (count : Nat) (sides threshold : Int) (again : Bool) : Rolling σ (List Die) := do
  let first ← Rolling.dice count sides .kept
  setsFrom sides threshold again first first.reverse

/-- Rolls another die while the newest face reaches the threshold, at most once unless `again`,
and puts the dice before `done`, last first. -/
def chainFrom (sides threshold : Int) (again : Bool) (newest : Int) (done : List Die)
    (source : σ) : EStateM.Result Fault σ (List Die) :=
  if threshold ≤ newest then
    match hroll : Rolling.face sides source with
    | .error fault after => .error fault after
    | .ok next after =>
      have := Rolling.left_face hroll
      let done := { value := next, status := .bonus } :: done
      if again then chainFrom sides threshold again next done after else .ok done after
  else .ok done source
termination_by Source.left source

/-- The chains of all dice, each behind its die, before `done`, last first. -/
def chainsFrom (sides threshold : Int) (again : Bool) :
    List Die → List Die → Rolling σ (List Die)
  | [], done => pure done
  | die :: dice, done => do
    let done ← chainFrom sides threshold again die.value (die :: done)
    chainsFrom sides threshold again dice done

/-- Rolls `count` dice, and then for each of them the chain of dice that it starts. -/
def chains (count : Nat) (sides threshold : Int) (again : Bool) : Rolling σ (List Die) := do
  let first ← Rolling.dice count sides .kept
  List.reverse <$> chainsFrom sides threshold again first []

end DiceNotation.Explosion
