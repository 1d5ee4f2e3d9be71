import DiceNotation.Proofs.Batch.Composition
import DiceNotation.Proofs.Evaluation.Pools

/-!
# Success levels

The levels of a success are a ladder: its first rung is at the threshold, and each other one is a
step above the one before. The level of a total is the number of rungs that the total has reached.
It does not change the value but takes the place of its total wherever values are scored.
-/

namespace DiceNotation

/-- The total has reached as many rungs as the level says, and no other one. -/
structure IsLevel (total threshold step level : Int) : Prop where
  nonneg : 0 ≤ level
  le_iff : ∀ k, 1 ≤ k → (k ≤ level ↔ threshold + (k - 1) * step ≤ total)

theorem isLevel_zero {total threshold step : Int} (hstep : 0 ≤ step) (h : total < threshold) :
    IsLevel total threshold step 0 := by
  refine ⟨Int.le_refl 0, fun k hk => ?_⟩
  have hrung : 0 ≤ (k - 1) * step := Int.mul_nonneg (by omega) hstep
  omega

theorem isLevel_of_le {total threshold step : Int} (hstep : 1 ≤ step) (h : threshold ≤ total) :
    IsLevel total threshold step (1 + (total - threshold).fdiv step) := by
  have hpos : 0 < step := by omega
  rw [Int.fdiv_eq_ediv_of_nonneg _ hpos.le]
  constructor
  · have hsteps : 0 ≤ (total - threshold) / step := Int.ediv_nonneg (by omega) hpos.le
    omega
  · intro k _
    calc
      k ≤ 1 + (total - threshold) / step ↔ k - 1 ≤ (total - threshold) / step := by omega
      _ ↔ (k - 1) * step ≤ total - threshold := Int.le_ediv_iff_mul_le hpos
      _ ↔ threshold + (k - 1) * step ≤ total := by omega

theorem exists_isLevel {step : Int} (hstep : 1 ≤ step) (threshold total : Int) :
    ∃ level, successLevel total threshold step = .ok level ∧
      IsLevel total threshold step level := by
  obtain hlt | hle := Int.lt_or_le total threshold
  · exact ⟨0, if_pos hlt, isLevel_zero (by omega) hlt⟩
  · refine ⟨_, ?_, isLevel_of_le hstep hle⟩
    rw [successLevel, if_neg (by omega), if_neg (by omega)]

/-- The value with the level of its total. -/
def Value.leveled (level : Int → Int) (value : Value) : Value :=
  value.withLevel (level value.roll.total)

theorem Value.score_leveled (level : Int → Int) (value : Value) :
    (value.leveled level).score = level value.roll.total :=
  score_withLevel _ value

theorem Value.success_of_level {level : Int → Int} {threshold step : Int}
    (h : ∀ total, successLevel total threshold step = .ok (level total)) (value : Value) :
    value.success threshold step = .ok (value.leveled level) := by
  rw [success, h]
  rfl

namespace Expression

/-- The values of the tree are those of the inner one with the levels of their totals. These levels
are the scores of a run, which a tally counts, and what a comparison compares. -/
structure ScoresByLevel (σ : Type) [Source σ] (limits : Limits) (level : Int → Int)
    (inner tree : Expression) : Prop where
  evaluate : (tree.evaluate limits : Rolling σ Value) =
    Value.leveled level <$> inner.evaluate limits
  run : ∀ count, (tree.run limits count : Rolling σ (List Value)) =
    List.map (Value.leveled level) <$> inner.run limits count
  scores : ∀ count, (List.map Value.score <$> tree.run limits count : Rolling σ (List Int)) =
    List.map (fun value => level value.roll.total) <$> inner.run limits count
  sample : ∀ count, 1 ≤ count → (tree.sample limits count : Rolling σ Tally) =
    (fun values => Tally.ofScores (values.map fun value => level value.roll.total)) <$>
      inner.run limits count
  left : ∀ relation other,
    ((comparison tree relation other).evaluate limits : Rolling σ Value) = do
      let first ← inner.evaluate limits
      let second ← other.evaluate limits
      return .versus { total := relation.compare (level first.roll.total) second.score }
        (first.leveled level) second
  right : ∀ other relation,
    ((comparison other relation tree).evaluate limits : Rolling σ Value) = do
      let first ← other.evaluate limits
      let second ← inner.evaluate limits
      return .versus { total := relation.compare first.score (level second.roll.total) }
        first (second.leveled level)

theorem scoresByLevel_of_evaluate {σ : Type} [Source σ] {limits : Limits} {level : Int → Int}
    {inner tree : Expression}
    (h : (tree.evaluate limits : Rolling σ Value) =
      Value.leveled level <$> inner.evaluate limits) :
    ScoresByLevel σ limits level inner tree := by
  have hrun : ∀ count, (tree.run limits count : Rolling σ (List Value)) =
      List.map (Value.leveled level) <$> inner.run limits count := by
    intro count
    obtain hlt | hle := Int.lt_or_le count 1
    · rw [Expression.run, Expression.run, if_pos hlt, if_pos hlt]
      rfl
    · rw [run_of_pos hle, run_of_pos hle, h, Rolling.times_map]
  constructor
  case evaluate => exact h
  case run => exact hrun
  case scores =>
    intro count
    rw [hrun]
    simp [Function.comp_def, Value.score_leveled]
  case sample =>
    intro count hcount
    rw [sample_of_pos hcount, hrun]
    simp [Function.comp_def, Value.score_leveled]
  case left =>
    intro relation other
    simp only [Expression.evaluate, h, bind_map_left, Value.comparison, Value.score_leveled]
  case right =>
    intro other relation
    simp only [Expression.evaluate, h, bind_map_left, Value.comparison, Value.score_leveled]

/-- A success level counts the rungs that the total of the inner value has reached, whatever level
that value has itself. Nothing else of the value changes, and it is scored by the level. -/
theorem evaluate_success_level {step : Int} (hstep : 1 ≤ step) (threshold : Int) :
    ∃ level : Int → Int,
      (∀ total, successLevel total threshold step = .ok (level total) ∧
        IsLevel total threshold step (level total)) ∧
      ∀ (σ : Type) [Source σ] (limits : Limits) (inner : Expression),
        ScoresByLevel σ limits level inner (success inner threshold step) := by
  choose level hlevel using exists_isLevel hstep threshold
  refine ⟨level, hlevel, fun σ _ limits inner => scoresByLevel_of_evaluate ?_⟩
  exact evaluate_success_eq (Value.success_of_level fun total => (hlevel total).1) inner

/-- The outer success counts by the total of 15 dots and not by the inner level of 3. -/
theorem evaluate_success_level_nested :
    ∃ value after, evaluate {} (success (success (pool ⟨3, 6, none, none⟩) 7 3) 12 1)
        (Replay.ofList [6, 5, 4]) = .ok value after ∧
      value.roll.total = 15 ∧ value.score = 4 ∧
      ∀ k, 1 ≤ k → (k ≤ value.score ↔ 12 + (k - 1) * 1 ≤ value.roll.total) := by
  have hinner : evaluate {} (success (pool ⟨3, 6, none, none⟩) 7 3)
      (Replay.ofList [6, 5, 4]) =
        .ok (.plain ⟨[⟨6, .kept, false⟩, ⟨5, .kept, false⟩, ⟨4, .kept, false⟩], 15, 0, some 3⟩)
          ⟨3, []⟩ := by
    cbv
  obtain ⟨level, hlevel, hscores⟩ := evaluate_success_level (Int.le_refl 1) 12
  obtain ⟨hreached, hrungs⟩ := hlevel 15
  have hfour : level 15 = 4 := Except.ok.inj (hreached.symm.trans (by decide))
  have houter := congrFun (hscores Replay {} (success (pool ⟨3, 6, none, none⟩) 7 3)).evaluate
    (Replay.ofList [6, 5, 4])
  exact ⟨_, _, houter.trans (Rolling.map_eq_ok.mpr ⟨_, hinner, rfl⟩), rfl, hfour, hrungs.le_iff⟩

end Expression

end DiceNotation
