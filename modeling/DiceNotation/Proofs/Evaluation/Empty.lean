import DiceNotation.Proofs.Evaluation.Faces
import DiceNotation.Proofs.Numeral.Plain

/-!
# Pools without dice

A pool without dice draws no face and has nothing that could explode, whatever its modifier. The
guard does not look at the number of dice, so it refuses an explosion without an end also where
there is no die to start it.
-/

namespace DiceNotation

theorem Modifier.select_nil {modifier : Option Modifier} {select : List Die → List Die}
    (h : selection? modifier = some select) : select [] = [] := by
  cases modifier with
  | none =>
    cases h
    rfl
  | some modifier =>
    cases modifier with
    | explode | explodeEach | advantage | disadvantage => cases h
    | addEach | subtractEach | takeLow | takeHigh =>
      cases h
      rfl
    | takeMiddle count =>
      cases h
      exact List.map_eq_nil_iff.mp (Selection.map_value_middle count [])
    | bestGroup =>
      cases h
      exact List.map_eq_nil_iff.mp (Selection.map_value_bestGroup [])

namespace Pool

variable {limits : Limits} {pool : Pool}

/-- Without faces there are no dice, in whichever way they are drawn. -/
theorem shows_nil (hcount : pool.count = 0) : pool.Shows [] [] := by
  have hlength : ([] : List Int).length = pool.count.toNat := by simp [hcount]
  cases hselect : Modifier.selection? pool.modifier with
  | some select =>
    have honce : pool.Shows [] (select []) := .once hselect hlength
    rwa [Modifier.select_nil hselect] at honce
  | none =>
    cases hmodifier : pool.modifier with
    | none =>
      rw [hmodifier] at hselect
      cases hselect
    | some modifier =>
      rw [hmodifier] at hselect
      cases modifier with
      | explode threshold again =>
        have hseries : Explosion.IsSeries (threshold.getD pool.sides) again [] [] :=
          .stop fun hne => absurd rfl hne
        exact .explode hmodifier hlength hseries
      | explodeEach => exact .explodeEach hmodifier hlength .nil
      | advantage => exact .twice true hmodifier hlength hlength
      | disadvantage => exact .twice false hmodifier hlength hlength
      | addEach | subtractEach | takeLow | takeHigh | takeMiddle | bestGroup => cases hselect

theorem evaluate_of_explodesAt {threshold : Int}
    (hcount : 0 ≤ pool.count ∧ pool.count ≤ limits.dice)
    (hsides : 1 ≤ pool.sides ∧ pool.sides ≤ limits.sides) (h : pool.ExplodesAt threshold)
    (hthreshold : threshold ≤ 1) {σ : Type} [Source σ] (source : σ) :
    (Expression.pool pool).evaluate limits source =
      .error (Fault.pool (.endless pool threshold)).raised source := by
  have hfault := fault?_of_explodesAt hcount hsides h hthreshold
  refine Rolling.map_eq_error.mpr ?_
  rw [roll_of_fault hfault]
  rfl

/-- Rolling no dice draws nothing and fails for no modifier, so no explosion of them goes on. The
value is an empty one unless the guard refuses the pool before it is rolled. -/
theorem evaluate_empty (hcount : pool.count = 0) (hdice : 0 ≤ limits.dice)
    (hsides : 1 ≤ pool.sides) (hlarge : pool.sides ≤ limits.sides) {σ : Type} [Source σ]
    (source : σ) :
    pool.dice source = .ok [] source ∧
    ((Expression.pool pool).evaluate limits source =
        .ok (.plain { dice := [], total := 0, constant := 0 }) source ↔
      ∀ threshold, pool.ExplodesAt threshold → 1 < threshold) ∧
    ∀ threshold, pool.ExplodesAt threshold → threshold ≤ 1 →
      (Expression.pool pool).evaluate limits source =
        .error (Fault.pool (.endless pool threshold)).raised source := by
  have hrolled : pool.dice source = .ok [] source :=
    dice_eq_ok_iff.mpr ⟨[], .nil source, shows_nil hcount⟩
  refine ⟨hrolled, ⟨?_, ?_⟩, ?_⟩
  · intro h
    exact (isAdmissible_of_evaluate h).ends
  · intro hends
    have hadmissible : pool.IsAdmissible limits :=
      ⟨by omega, by omega, hsides, hlarge, hends⟩
    exact (evaluate_eq_ok_iff hadmissible).mpr ⟨[], hrolled, rfl⟩
  · intro threshold hexplodes hthreshold
    exact evaluate_of_explodesAt ⟨by omega, by omega⟩ ⟨hsides, hlarge⟩ hexplodes hthreshold source

theorem evaluate_empty_endless :
    Expression.evaluate {} (.pool ⟨0, 6, some (.explode none true), none⟩) (Replay.ofList [5]) =
        .ok (.plain { dice := [], total := 0, constant := 0 }) (Replay.ofList [5]) ∧
      Expression.evaluate {} (.pool ⟨0, 1, some (.explode none true), none⟩) (Replay.ofList []) =
        .error (.pool (.endless ⟨0, 1, some (.explode none true), none⟩ 1)) (Replay.ofList []) := by
  have hsix : Pool.ExplodesAt ⟨0, 6, some (.explode none true), none⟩ 6 := ⟨none, .inl rfl, rfl⟩
  have hone : Pool.ExplodesAt ⟨0, 1, some (.explode none true), none⟩ 1 := ⟨none, .inl rfl, rfl⟩
  have hsmall : ∀ n ∈ (Fault.pool (.endless ⟨0, 1, some (.explode none true), none⟩ 1)).numbers,
      n.natAbs < 10 := by decide
  constructor
  · refine (evaluate_empty rfl (by decide) (by decide) (by decide) _).2.1.mpr ?_
    intro threshold hthreshold
    rw [hthreshold.unique hsix]
    decide
  · rw [(evaluate_empty rfl (by decide) (by decide) (by decide) _).2.2 1 hone (by decide),
      Fault.raised_of_fits fun n hn => Numeral.fits_of_lt 1 (by decide) (hsmall n hn)]

end Pool

end DiceNotation
