import DiceNotation.Proofs.Evaluation.Explosions

/-!
# Evaluated pools

A pool that is not refused comes to a value just if the source gives the faces that it draws. What
it makes of them is told by the rules for its faces, so nothing else needs to be known of the
source.
-/

namespace DiceNotation.Pool

variable {limits : Limits} {pool : Pool} {dice : List Die} {σ : Type} [Source σ] {source after : σ}
  {value : Value}

theorem shows_iff_of_select {faces : List Int} {select : List Die → List Die}
    (hselect : Modifier.selection? pool.modifier = some select) :
    pool.Shows faces dice ↔
      faces.length = pool.count.toNat ∧ dice = select (faces.map (Die.showing .kept)) := by
  constructor
  · intro h
    cases h with
    | once hother hlength =>
      obtain rfl := Option.some.inj (hselect.symm.trans hother)
      exact ⟨hlength, rfl⟩
    | twice high hmodifier =>
      rw [hmodifier] at hselect
      cases high <;> cases hselect
    | explode hmodifier | explodeEach hmodifier =>
      rw [hmodifier] at hselect
      cases hselect
  · rintro ⟨hlength, rfl⟩
    exact .once hselect hlength

theorem Shows.eq_select {faces : List Int} {select : List Die → List Die}
    (h : pool.Shows faces dice) (hselect : Modifier.selection? pool.modifier = some select) :
    dice = select (faces.map (Die.showing .kept)) :=
  ((shows_iff_of_select hselect).mp h).2

theorem shows_iff_of_twice {faces : List Int} {high : Bool}
    (hmodifier : pool.modifier = some (if high then .advantage else .disadvantage)) :
    pool.Shows faces dice ↔
      ∃ first second : List Int, faces = first ++ second ∧
        first.length = pool.count.toNat ∧ second.length = pool.count.toNat ∧
        dice = Selection.betterSet high (first.map (Die.showing .kept))
          (second.map (Die.showing .kept)) := by
  constructor
  · intro h
    cases h with
    | once hselect _ =>
      rw [hmodifier] at hselect
      cases high <;> cases hselect
    | @twice first second other hother hfirst hsecond =>
      refine ⟨first, second, rfl, hfirst, hsecond, ?_⟩
      rw [hmodifier] at hother
      cases high <;> cases other <;> cases hother <;> rfl
    | explode hother | explodeEach hother =>
      rw [hmodifier] at hother
      cases high <;> cases hother
  · rintro ⟨first, second, rfl, hfirst, hsecond, rfl⟩
    exact .twice high hmodifier hfirst hsecond

theorem plainDice_of_gives {faces : List Int} (hlength : faces.length = pool.count.toNat)
    (h : Source.Gives source (faces.map (Throw.mk pool.sides)) after) :
    pool.plainDice source = .ok (faces.map (Die.showing .kept)) after := by
  rw [plainDice, ← hlength]
  exact Rolling.dice_of_gives .kept h

theorem select_of_gives {faces : List Int} {select : List Die → List Die}
    (hselect : Modifier.selection? pool.modifier = some select)
    (hlength : faces.length = pool.count.toNat)
    (h : Source.Gives source (faces.map (Throw.mk pool.sides)) after) :
    pool.dice source = .ok (select (faces.map (Die.showing .kept))) after := by
  have hplain := plainDice_of_gives hlength h
  unfold Pool.dice
  cases hmodifier : pool.modifier with
  | none =>
    rw [hmodifier] at hselect
    cases hselect
    exact hplain
  | some modifier =>
    rw [hmodifier] at hselect
    cases modifier with
    | explode | explodeEach | advantage | disadvantage => cases hselect
    | addEach | subtractEach | takeLow | takeHigh | takeMiddle | bestGroup =>
      cases hselect
      exact Rolling.map_eq_ok.mpr ⟨_, hplain, rfl⟩

theorem twiceDice_of_gives {first second : List Int} (high : Bool)
    (hfirst : first.length = pool.count.toNat) (hsecond : second.length = pool.count.toNat)
    (h : Source.Gives source ((first ++ second).map (Throw.mk pool.sides)) after) :
    pool.twiceDice high source = .ok (Selection.betterSet high
      (first.map (Die.showing .kept)) (second.map (Die.showing .kept))) after := by
  rw [List.map_append] at h
  obtain ⟨middle, hgives, hlater⟩ := Source.gives_append_iff.mp h
  exact Rolling.both_eq_ok.mpr
    ⟨_, middle, _, plainDice_of_gives hfirst hgives, plainDice_of_gives hsecond hlater, rfl⟩

theorem dice_eq_ok_iff :
    pool.dice source = .ok dice after ↔
      ∃ faces, Source.Gives source (faces.map (Throw.mk pool.sides)) after ∧
        pool.Shows faces dice := by
  constructor
  · intro h
    have hcourse : Rolling.Course _ (fun _ => False) _ source := pool.course_dice
    obtain ⟨_, hgives, -, faces, rfl, hshows⟩ := hcourse.of_ok h
    exact ⟨faces, hgives, hshows⟩
  · rintro ⟨_, hgives, hshows⟩
    cases hshows with
    | once hselect hlength => exact select_of_gives hselect hlength hgives
    | twice high hmodifier hfirst hsecond =>
      have htwice := twiceDice_of_gives high hfirst hsecond hgives
      rw [Pool.dice, hmodifier]
      cases high <;> exact htwice
    | explode hmodifier hlength hseries =>
      rw [Pool.dice, hmodifier]
      exact Explosion.sets_eq_ok_iff.mpr ⟨_, _, hgives, hlength, hseries, rfl⟩
    | explodeEach hmodifier hlength hchains =>
      rw [Pool.dice, hmodifier]
      exact Explosion.chains_eq_ok_iff.mpr ⟨_, _, hgives, hlength, hchains, rfl⟩

theorem isAdmissible_of_evaluate
    (h : (Expression.pool pool).evaluate limits source = .ok value after) :
    pool.IsAdmissible limits := by
  obtain ⟨roll, hroll, -⟩ := Rolling.map_eq_ok.mp h
  exact fault?_eq_none_iff.mp (fault?_of_roll hroll)

theorem evaluate_eq_ok_iff_shows :
    (Expression.pool pool).evaluate limits source = .ok value after ↔
      pool.IsAdmissible limits ∧ ∃ faces dice,
        Source.Gives source (faces.map (Throw.mk pool.sides)) after ∧ pool.Shows faces dice ∧
        value = .plain { dice, total := Die.total dice } := by
  constructor
  · intro h
    have hadmissible := isAdmissible_of_evaluate h
    obtain ⟨dice, hdice, rfl⟩ := (evaluate_eq_ok_iff hadmissible).mp h
    obtain ⟨faces, hgives, hshows⟩ := dice_eq_ok_iff.mp hdice
    exact ⟨hadmissible, faces, dice, hgives, hshows, rfl⟩
  · rintro ⟨hadmissible, faces, dice, hgives, hshows, rfl⟩
    exact (evaluate_eq_ok_iff hadmissible).mpr
      ⟨dice, dice_eq_ok_iff.mpr ⟨faces, hgives, hshows⟩, rfl⟩

end DiceNotation.Pool
