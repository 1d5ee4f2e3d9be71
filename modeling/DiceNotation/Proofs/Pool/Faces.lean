import DiceNotation.Pool
import DiceNotation.Proofs.Pool.Explosion

/-!
# Pools, told by their faces

What a pool makes of the faces that its dice show, one rule for each way of drawing them. A pool
draws faces of its own dice and nothing else, and only the source can make it fail once it is not
refused.
-/

namespace DiceNotation

namespace Selection

theorem map_value_keepAt (places : List Nat) (dice : List Die) :
    (keepAt places dice).map (·.value) = dice.map (·.value) := by
  rw [keepAt_eq_mapIdx]
  apply List.ext_getElem?
  intro i
  simp only [List.getElem?_map, List.getElem?_mapIdx, Option.map_map]
  rfl

theorem map_value_keepFace (face : Int) (dice : List Die) :
    (keepFace face dice).map (·.value) = dice.map (·.value) := by
  rw [keepFace, List.map_map]
  rfl

theorem map_value_discardAll (dice : List Die) :
    (discardAll dice).map (·.value) = dice.map (·.value) := by
  rw [discardAll, List.map_map]
  rfl

theorem map_value_middle (count : Int) (dice : List Die) :
    (middle count dice).map (·.value) = dice.map (·.value) := by
  unfold middle
  split
  · rfl
  · exact map_value_keepAt _ dice

theorem map_value_bestGroup (dice : List Die) :
    (bestGroup dice).map (·.value) = dice.map (·.value) := by
  unfold bestGroup
  split
  · rfl
  · exact map_value_keepFace _ dice

theorem betterSet_cases (high : Bool) (first second : List Die) :
    betterSet high first second = first ++ discardAll second ∨
      betterSet high first second = discardAll first ++ second :=
  ite_eq_or_eq _ _ _

theorem map_value_betterSet (high : Bool) (first second : List Die) :
    (betterSet high first second).map (·.value) =
      first.map (·.value) ++ second.map (·.value) := by
  obtain h | h := betterSet_cases high first second <;>
    rw [h, List.map_append, map_value_discardAll]

end Selection

/-- What is made of the dice of a single roll, unless the modifier asks for another way to roll. -/
def Modifier.selection? : Option Modifier → Option (List Die → List Die)
  | none => some id
  | some (.addEach amount) => some (List.map fun die => { die with value := die.value + amount })
  | some (.subtractEach amount) =>
    some (List.map fun die => { die with value := die.value - amount })
  | some (.takeLow count) => some (Selection.lowest count)
  | some (.takeHigh count) => some (Selection.highest count)
  | some (.takeMiddle count) => some (Selection.middle count)
  | some .bestGroup => some Selection.bestGroup
  | some (.explode _ _) | some (.explodeEach _ _) | some .advantage | some .disadvantage => none

namespace Pool

inductive Shows (pool : Pool) : List Int → List Die → Prop where
  | once {faces : List Int} {select : List Die → List Die} :
      Modifier.selection? pool.modifier = some select → faces.length = pool.count.toNat →
      Shows pool faces (select (faces.map (Die.showing .kept)))
  | twice {first second : List Int} (high : Bool) :
      pool.modifier = some (if high then .advantage else .disadvantage) →
      first.length = pool.count.toNat → second.length = pool.count.toNat →
      Shows pool (first ++ second) (Selection.betterSet high (first.map (Die.showing .kept))
        (second.map (Die.showing .kept)))
  | explode {threshold : Option Int} {again : Bool} {first : List Int} {later : List (List Int)} :
      pool.modifier = some (.explode threshold again) → first.length = pool.count.toNat →
      Explosion.IsSeries (threshold.getD pool.sides) again first later →
      Shows pool (first ++ later.flatten)
        (first.map (Die.showing .kept) ++ later.flatten.map (Die.showing .bonus))
  | explodeEach {threshold : Option Int} {again : Bool} {first : List Int}
      {chains : List (List Int)} :
      pool.modifier = some (.explodeEach threshold again) → first.length = pool.count.toNat →
      List.Forall₂ (Explosion.IsChain (threshold.getD pool.sides) again) first chains →
      Shows pool (first ++ chains.flatten)
        (List.zipWith (fun face chain => Die.showing .kept face ::
          chain.map (Die.showing .bonus)) first chains).flatten

theorem map_value_showing (status : Status) (faces : List Int) :
    (faces.map (Die.showing status)).map (·.value) = faces := by
  rw [List.map_map]
  exact List.map_id _

variable {allowed : Fault → Prop} {σ : Type} [Source σ] {source after : σ}

theorem course_plainDice (pool : Pool) :
    Rolling.Course (fun _ _ => pool.plainDice) allowed
      (Rolling.OfSides pool.sides fun faces dice =>
        faces.length = pool.count.toNat ∧ dice = faces.map (Die.showing .kept)) source :=
  Rolling.course_dice pool.count.toNat pool.sides .kept source

theorem course_select {pool : Pool} {select : List Die → List Die}
    (h : Modifier.selection? pool.modifier = some select) :
    Rolling.Course (fun _ _ => select <$> pool.plainDice) allowed
      (Rolling.OfSides pool.sides pool.Shows) source := by
  refine (pool.course_plainDice.map_ofSides select).imp ?_
  rintro _ dice ⟨faces, rfl, _, ⟨hlength, rfl⟩, rfl⟩
  exact ⟨faces, rfl, .once h hlength⟩

theorem course_twiceDice {pool : Pool} (high : Bool)
    (h : pool.modifier = some (if high then .advantage else .disadvantage)) :
    Rolling.Course (fun _ _ => pool.twiceDice high) allowed
      (Rolling.OfSides pool.sides pool.Shows) source := by
  refine pool.course_plainDice.bind_ofSides ?_
  rintro first middle _ - ⟨hfirst, rfl⟩
  refine pool.course_plainDice.bind_ofSides ?_
  rintro second last _ - ⟨hsecond, rfl⟩
  refine Rolling.course_pure _ (Rolling.ofSides_nil ?_)
  rw [List.append_nil]
  exact .twice high h hfirst hsecond

/-- Rolling the pool's dice has no fault of its own. -/
theorem course_dice (pool : Pool) :
    Rolling.Course (fun _ _ => pool.dice) allowed (Rolling.OfSides pool.sides pool.Shows)
      source := by
  unfold Pool.dice
  cases hmodifier : pool.modifier with
  | none =>
    have hselect : Modifier.selection? pool.modifier = some id := by rw [hmodifier]; rfl
    simpa only [id_map] using course_select hselect
  | some modifier =>
    cases modifier with
    | explode threshold again =>
      refine (Explosion.course_sets _ _ _ again source).imp ?_
      rintro _ dice ⟨_, rfl, first, later, rfl, hlength, hseries, rfl⟩
      exact ⟨_, rfl, .explode hmodifier hlength hseries⟩
    | explodeEach threshold again =>
      refine (Explosion.course_chains _ _ _ again source).imp ?_
      rintro _ dice ⟨_, rfl, first, chains, rfl, hlength, hchains, rfl⟩
      exact ⟨_, rfl, .explodeEach hmodifier hlength hchains⟩
    | advantage => exact course_twiceDice true hmodifier
    | disadvantage => exact course_twiceDice false hmodifier
    | addEach | subtractEach | takeLow | takeHigh | takeMiddle | bestGroup =>
      exact course_select (by rw [hmodifier]; rfl)

theorem course_roll {limits : Limits} {pool : Pool} (h : pool.fault? limits = none) :
    Rolling.Course (fun _ _ => pool.roll limits) allowed
      (Rolling.OfSides pool.sides fun faces roll => pool.Shows faces roll.dice) source := by
  simp only [Pool.roll, h]
  refine (pool.course_dice.map_ofSides _).imp ?_
  rintro _ roll ⟨faces, rfl, dice, hshows, rfl⟩
  exact ⟨faces, rfl, hshows⟩

theorem roll_of_fault {limits : Limits} {pool : Pool} {fault : PoolFault}
    (h : pool.fault? limits = some fault) :
    (pool.roll limits : Rolling σ Roll) = throw (Fault.pool fault).raised := by
  rw [Pool.roll, h]
  rfl

theorem fault?_of_roll {limits : Limits} {pool : Pool} {roll : Roll}
    (h : pool.roll limits source = .ok roll after) : pool.fault? limits = none := by
  cases hfault : pool.fault? limits with
  | none => rfl
  | some fault =>
    rw [roll_of_fault hfault] at h
    cases h

end Pool

end DiceNotation
