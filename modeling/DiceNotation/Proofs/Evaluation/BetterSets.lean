import DiceNotation.Proofs.Evaluation.Faces
import DiceNotation.Proofs.Pool.Totals
import Mathlib

/-!
# The better one of two sets

A pool with an advantage or a disadvantage rolls two sets of dice and keeps one of them as a whole.
On the same faces the two modifiers have the same sets before them and differ only in which of them
they prefer; if neither is better, both keep the first one.
-/

namespace DiceNotation

/-- The dice of both sets as they fell, those of one set kept and those of the other discarded. -/
def oneKept (firstWins : Bool) (first second : List Int) : List Die :=
  first.map (Die.showing (if firstWins then .kept else .discarded)) ++
    second.map (Die.showing (if firstWins then .discarded else .kept))

/-- One of the sets is kept as a whole and gives the total, which is the better one of both sums.
It is the first one if the sums are equal. -/
structure KeepsOneSet (better : Int → Int → Int) (first second : List Int) (roll : Roll) :
    Prop where
  one : roll.dice = oneKept true first second ∧ roll.total = first.sum ∨
    roll.dice = oneKept false first second ∧ roll.total = second.sum
  total : roll.total = better first.sum second.sum
  tie : first.sum = second.sum → roll.dice = oneKept true first second

namespace Selection

/-- Whether the first one of two sets with these sums is kept. -/
def FirstWins (high : Bool) (first second : Int) : Prop :=
  if high then second ≤ first else first ≤ second

instance (high : Bool) (first second : Int) : Decidable (FirstWins high first second) :=
  inferInstanceAs (Decidable (if high then second ≤ first else first ≤ second))

variable {high : Bool} {first second : List Int}

theorem discardAll_showing (faces : List Int) :
    discardAll (faces.map (Die.showing .kept)) = faces.map (Die.showing .discarded) := by
  rw [discardAll, List.map_map]
  rfl

theorem total_oneKept (firstWins : Bool) (first second : List Int) :
    Die.total (oneKept firstWins first second) = if firstWins then first.sum else second.sum := by
  rw [oneKept, Die.total_append, Die.total_map_showing, Die.total_map_showing]
  cases firstWins <;> simp

theorem betterSet_eq_oneKept (high : Bool) (first second : List Int) :
    betterSet high (first.map (Die.showing .kept)) (second.map (Die.showing .kept)) =
      oneKept (FirstWins high first.sum second.sum) first second := by
  simp only [betterSet, Die.total_showing_kept, discardAll_showing]
  by_cases hwins : FirstWins high first.sum second.sum
  · rw [decide_eq_true hwins]
    exact if_pos hwins
  · rw [decide_eq_false hwins]
    exact if_neg hwins

theorem keepsOneSet_betterSet (high : Bool) (first second : List Int) :
    KeepsOneSet (if high then max else min) first second {
      dice := betterSet high (first.map (Die.showing .kept)) (second.map (Die.showing .kept))
      total := Die.total (betterSet high (first.map (Die.showing .kept))
        (second.map (Die.showing .kept))) } := by
  rw [betterSet_eq_oneKept]
  by_cases hwins : FirstWins high first.sum second.sum
  · rw [decide_eq_true hwins]
    constructor
    case one => exact .inl ⟨rfl, total_oneKept true first second⟩
    case total =>
      refine (total_oneKept true first second).trans ?_
      cases high with
      | true => exact (max_eq_left hwins).symm
      | false => exact (min_eq_left hwins).symm
    case tie => exact fun _ => rfl
  · rw [decide_eq_false hwins]
    constructor
    case one => exact .inr ⟨rfl, total_oneKept false first second⟩
    case total =>
      refine (total_oneKept false first second).trans ?_
      cases high with
      | true => exact (max_eq_right (Int.not_le.mp hwins).le).symm
      | false => exact (min_eq_right (Int.not_le.mp hwins).le).symm
    case tie =>
      intro hsame
      refine absurd ?_ hwins
      cases high with
      | true => exact hsame.ge
      | false => exact hsame.le

end Selection

namespace Pool

/-- The pool rolled twice, with the higher or the lower one of both sets preferred. -/
def rolledTwice (high : Bool) (pool : Pool) : Pool :=
  { pool with modifier := some (if high then .advantage else .disadvantage) }

variable {limits : Limits} {pool : Pool} {high : Bool} {σ : Type} [Source σ] {source after : σ}
  {value : Value}

/-- Whichever of the two sets is preferred, the evaluation draws both of them. It comes to the
higher sum or to the lower one, so the two totals on the same faces make up both sums. -/
theorem evaluate_rolledTwice
    (h : (Expression.pool (pool.rolledTwice high)).evaluate limits source = .ok value after) :
    ∃ (first second : List Int) (best worst : Roll),
      Source.Gives source ((first ++ second).map (Throw.mk pool.sides)) after ∧
      first.length = pool.count ∧ second.length = pool.count ∧
      (Expression.pool (pool.rolledTwice true)).evaluate limits source =
        .ok (.plain best) after ∧
      (Expression.pool (pool.rolledTwice false)).evaluate limits source =
        .ok (.plain worst) after ∧
      KeepsOneSet max first second best ∧ KeepsOneSet min first second worst ∧
      best.total + worst.total = first.sum + second.sum := by
  obtain ⟨hadmissible, faces, dice, hgives, hshows, -⟩ := evaluate_eq_ok_iff_shows.mp h
  obtain ⟨first, second, rfl, hfirst, hsecond, -⟩ := (shows_iff_of_twice rfl).mp hshows
  have hboth : ∀ prefers : Bool, ∃ roll,
      (Expression.pool (pool.rolledTwice prefers)).evaluate limits source =
        .ok (.plain roll) after ∧
      KeepsOneSet (if prefers then max else min) first second roll := by
    intro prefers
    have hends : ∀ threshold, (pool.rolledTwice prefers).ExplodesAt threshold → 1 < threshold := by
      rintro threshold ⟨given, hgiven | hgiven, -⟩ <;> cases prefers <;> cases hgiven
    have hadmitted : (pool.rolledTwice prefers).IsAdmissible limits :=
      ⟨hadmissible.count_nonneg, hadmissible.count_le, hadmissible.sides_pos, hadmissible.sides_le,
        hends⟩
    refine ⟨_, evaluate_eq_ok_iff_shows.mpr ⟨hadmitted, _, _, hgives,
      .twice prefers rfl hfirst hsecond, rfl⟩, ?_⟩
    exact Selection.keepsOneSet_betterSet prefers first second
  obtain ⟨best, hbest, hhigher⟩ := hboth true
  obtain ⟨worst, hworst, hlower⟩ := hboth false
  refine ⟨first, second, best, worst, hgives, ?_, ?_, hbest, hworst, hhigher, hlower, ?_⟩
  · exact (length_eq_toNat_iff hadmissible).mp hfirst
  · exact (length_eq_toNat_iff hadmissible).mp hsecond
  · rw [hhigher.total, hlower.total]
    exact max_add_min _ _

theorem evaluate_rolledTwice_tie :
    ∃ best worst : Roll,
      Expression.evaluate {} (.pool ⟨2, 6, some .advantage, none⟩)
        (Replay.ofList [3, 4, 5, 2, 1]) = .ok (.plain best) ⟨5, [1]⟩ ∧
      Expression.evaluate {} (.pool ⟨2, 6, some .disadvantage, none⟩)
        (Replay.ofList [3, 4, 5, 2, 1]) = .ok (.plain worst) ⟨5, [1]⟩ ∧
      best.dice = oneKept true [3, 4] [5, 2] ∧ worst.dice = oneKept true [3, 4] [5, 2] ∧
      best.total + worst.total = 14 := by
  have hvalue : Expression.evaluate {} (.pool (rolledTwice true ⟨2, 6, none, none⟩))
      (Replay.ofList [3, 4, 5, 2, 1]) =
        .ok (.plain ⟨oneKept true [3, 4] [5, 2], 7, 0, none⟩) ⟨5, [1]⟩ := by
    cbv
  obtain ⟨first, second, best, worst, hgives, hfirst, hsecond, hbest, hworst, hhigher, hlower,
    hsum⟩ := evaluate_rolledTwice hvalue
  obtain ⟨a, b, rfl⟩ := List.length_eq_two.mp (Int.ofNat_inj.mp hfirst)
  obtain ⟨c, d, rfl⟩ := List.length_eq_two.mp (Int.ofNat_inj.mp hsecond)
  obtain ⟨-, -, hfaces⟩ := Replay.gives_iff.mp hgives
  obtain ⟨rfl, rfl, rfl, rfl⟩ : 3 = a ∧ 4 = b ∧ 5 = c ∧ 2 = d := by simpa using hfaces
  exact ⟨best, worst, hbest, hworst, hhigher.tie rfl, hlower.tie rfl, hsum⟩

end Pool

end DiceNotation
