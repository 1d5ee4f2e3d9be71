import DiceNotation.Pool
import Mathlib.Tactic.SplitIfs

/-!
# Admissible pools

Which pools are rolled. The checks stop at the first one that fails, but a pool passes all of them
just if it is admissible, whatever their order.
-/

namespace DiceNotation

namespace Pool

/-- The pool explodes as long as its faces reach the threshold. -/
def ExplodesAt (pool : Pool) (threshold : Int) : Prop :=
  ∃ given, (pool.modifier = some (.explode given true) ∨
      pool.modifier = some (.explodeEach given true)) ∧
    given.getD pool.sides = threshold

theorem ExplodesAt.unique {pool : Pool} {threshold other : Int} (h : pool.ExplodesAt threshold)
    (hother : pool.ExplodesAt other) : threshold = other := by
  obtain ⟨given, hgiven, rfl⟩ := h
  obtain ⟨given', hgiven', rfl⟩ := hother
  rcases hgiven with hgiven | hgiven <;> rcases hgiven' with hgiven' | hgiven' <;>
    simp_all

theorem endlessThreshold?_eq_some_iff {pool : Pool} {threshold : Int} :
    pool.endlessThreshold? = some threshold ↔ pool.ExplodesAt threshold ∧ threshold ≤ 1 := by
  unfold endlessThreshold? ExplodesAt
  split
  case h_1 given h | h_2 given h =>
    dsimp only
    constructor
    · intro hsome
      split at hsome
      next hle =>
        cases hsome
        exact ⟨⟨given, by simp [h], rfl⟩, hle⟩
      next => cases hsome
    · rintro ⟨⟨other, hother, rfl⟩, hle⟩
      obtain rfl : given = other := by simpa [h] using hother
      rw [if_pos hle]
  case h_3 heach hset =>
    constructor
    · intro hsome
      cases hsome
    · rintro ⟨⟨given, h | h, _⟩, _⟩
      · exact (heach given h).elim
      · exact (hset given h).elim

structure IsAdmissible (limits : Limits) (pool : Pool) : Prop where
  count_nonneg : 0 ≤ pool.count
  count_le : pool.count ≤ limits.dice
  sides_pos : 1 ≤ pool.sides
  sides_le : pool.sides ≤ limits.sides
  ends : ∀ threshold, pool.ExplodesAt threshold → 1 < threshold

theorem fault?_eq_none_iff {limits : Limits} {pool : Pool} :
    pool.fault? limits = none ↔ pool.IsAdmissible limits := by
  have hends : pool.endlessThreshold? = none ↔
      ∀ threshold, pool.ExplodesAt threshold → 1 < threshold := by
    rw [Option.eq_none_iff_forall_ne_some]
    refine forall_congr' fun threshold => ?_
    rw [ne_eq, endlessThreshold?_eq_some_iff, not_and, Int.not_le]
  unfold fault?
  constructor
  · intro h
    split_ifs at h with hcount hsides hdice hlarge
    exact ⟨by omega, by omega, by omega, by omega, hends.mp (Option.map_eq_none_iff.mp h)⟩
  · rintro ⟨hcount, hdice, hsides, hlarge, hthreshold⟩
    rw [if_neg (by omega), if_neg (by omega), if_neg (by omega), if_neg (by omega),
      hends.mpr hthreshold]
    rfl

/-- Of a pool that is large and small enough, only the explosion can be at fault. -/
theorem fault?_of_explodesAt {limits : Limits} {pool : Pool} {threshold : Int}
    (hcount : 0 ≤ pool.count ∧ pool.count ≤ limits.dice)
    (hsides : 1 ≤ pool.sides ∧ pool.sides ≤ limits.sides) (h : pool.ExplodesAt threshold)
    (hthreshold : threshold ≤ 1) : pool.fault? limits = some (.endless pool threshold) := by
  rw [fault?, if_neg (by omega), if_neg (by omega), if_neg (by omega), if_neg (by omega),
    endlessThreshold?_eq_some_iff.mpr ⟨h, hthreshold⟩]
  rfl

/-- The guard lets all explosions pass that a face can end. -/
theorem fault?_eq_none_of_explodesAt {limits : Limits} {pool : Pool} {threshold : Int}
    (hcount : 0 ≤ pool.count ∧ pool.count ≤ limits.dice)
    (hsides : 1 ≤ pool.sides ∧ pool.sides ≤ limits.sides) (h : pool.ExplodesAt threshold)
    (hthreshold : 1 < threshold) : pool.fault? limits = none := by
  refine fault?_eq_none_iff.mpr ⟨hcount.1, hcount.2, hsides.1, hsides.2, ?_⟩
  intro other hother
  rwa [hother.unique h]

end Pool

end DiceNotation
