import DiceNotation.Proofs.Evaluation.Evaluates
import DiceNotation.Proofs.Expression.Forms
import DiceNotation.Source.Replay
import Mathlib

/-!
# Values of trees without comparisons

Each operation on values reckons the total in its own way. Whatever the nesting, it stays the sum
of what the dice contribute and of the constant.
-/

namespace DiceNotation

namespace Expression

def IsComparisonFree : Expression → Prop
  | .number _ | .pool _ => True
  | .sum left right | .difference left right => left.IsComparisonFree ∧ right.IsComparisonFree
  | .target inner _ _ | .success inner _ _ => inner.IsComparisonFree
  | .comparison _ _ _ => False

end Expression

namespace Die

theorem sum_map_contribution (dice : List Die) : (dice.map contribution).sum = total dice := by
  induction dice with
  | nil => rfl
  | cons die dice ih => rw [List.map_cons, List.sum_cons, ih, total_cons]

theorem total_map_flip (dice : List Die) : total (dice.map flip) = -total dice := by
  induction dice with
  | nil => rfl
  | cons die dice ih =>
    rw [List.map_cons, total_cons, total_cons, ih, contribution_flip]
    omega

end Die

/-- The total comes from the dice and the constant. -/
def Roll.IsBalanced (roll : Roll) : Prop :=
  roll.total = (roll.dice.map Die.contribution).sum + roll.constant

theorem Roll.isBalanced_iff (roll : Roll) :
    roll.IsBalanced ↔ roll.total = Die.total roll.dice + roll.constant := by
  rw [IsBalanced, Die.sum_map_contribution]

namespace Value

theorem isBalanced_sum {left right : Value} (hleft : left.roll.IsBalanced)
    (hright : right.roll.IsBalanced) : (left.sum right).roll.IsBalanced := by
  rw [Roll.isBalanced_iff] at hleft hright ⊢
  change left.roll.total + right.roll.total =
    Die.total (left.roll.dice ++ right.roll.dice) + (left.roll.constant + right.roll.constant)
  rw [Die.total_append]
  omega

theorem isBalanced_difference {left right : Value} (hleft : left.roll.IsBalanced)
    (hright : right.roll.IsBalanced) : (left.difference right).roll.IsBalanced := by
  rw [Roll.isBalanced_iff] at hleft hright ⊢
  change left.roll.total - right.roll.total =
    Die.total (left.roll.dice ++ right.roll.dice.map Die.flip) +
      (left.roll.constant - right.roll.constant)
  rw [Die.total_append, Die.total_map_flip]
  omega

theorem isBalanced_target (side : Side) (threshold : Int) (inner : Value) :
    (inner.target side threshold).roll.IsBalanced := by
  rw [Roll.isBalanced_iff]
  rfl

theorem roll_plain (roll : Roll) : (plain roll).roll = roll := rfl

theorem roll_withLevel (level : Int) (value : Value) :
    (value.withLevel level).roll = { value.roll with level := some level } := by
  cases value <;> rfl

theorem operands_withLevel (level : Int) (value : Value) :
    (value.withLevel level).operands = value.operands := by
  cases value <;> rfl

/-- What holds of the values of a tree without comparisons. -/
structure Agrees (tree : Expression) (value : Value) : Prop where
  balanced : value.roll.IsBalanced
  operands : value.operands = none
  level : value.roll.level.isSome = true ↔ tree.IsSuccess

end Value

theorem Pool.exists_dice_of_roll {σ : Type} [Source σ] {limits : Limits} {pool : Pool}
    {source after : σ} {roll : Roll} (h : pool.roll limits source = .ok roll after) :
    ∃ dice, roll = { dice, total := Die.total dice } := by
  rw [Pool.roll] at h
  cases hfault : pool.fault? limits with
  | some fault =>
    rw [hfault] at h
    cases h
  | none =>
    rw [hfault] at h
    obtain ⟨dice, _, rfl⟩ := Rolling.map_eq_ok.mp h
    exact ⟨dice, rfl⟩

theorem Relation.compare_cases (left right : Int) (relation : Relation) :
    relation.compare left right = -1 ∨ relation.compare left right = 0 ∨
      relation.compare left right = 1 := by
  have hholds : ∀ holds : Bool, holds.toInt = -1 ∨ holds.toInt = 0 ∨ holds.toInt = 1 := by decide
  cases relation with
  | order =>
    have hsign := Int.sign_trichotomy (left - right)
    change (left - right).sign = -1 ∨ (left - right).sign = 0 ∨ (left - right).sign = 1
    omega
  | _ => exact hholds _

namespace Evaluates

variable {σ : Type} [Source σ] {limits : Limits}

theorem agrees {tree : Expression} {source after : σ} {value : Value}
    (h : Evaluates limits tree source value after) (hfree : tree.IsComparisonFree) :
    value.Agrees tree := by
  induction h with
  | number n source =>
    refine ⟨?_, rfl, by simp [Value.roll, Expression.IsSuccess]⟩
    exact (Int.zero_add n).symm
  | pool hroll =>
    obtain ⟨dice, rfl⟩ := Pool.exists_dice_of_roll hroll
    refine ⟨?_, rfl, by simp [Value.roll, Expression.IsSuccess]⟩
    exact (Roll.isBalanced_iff _).mpr (Int.add_zero _).symm
  | sum _ _ ihleft ihright =>
    have hleft := ihleft hfree.1
    have hright := ihright hfree.2
    refine ⟨Value.isBalanced_sum hleft.balanced hright.balanced, rfl, ?_⟩
    simp [Value.sum, Value.roll, Expression.IsSuccess]
  | difference _ _ ihleft ihright =>
    have hleft := ihleft hfree.1
    have hright := ihright hfree.2
    refine ⟨Value.isBalanced_difference hleft.balanced hright.balanced, rfl, ?_⟩
    simp [Value.difference, Value.roll, Expression.IsSuccess]
  | target side threshold _ _ =>
    refine ⟨Value.isBalanced_target side threshold _, rfl, ?_⟩
    simp [Value.target, Value.roll, Expression.IsSuccess]
  | success _ _ ih =>
    have hinner := ih hfree
    refine ⟨?_, ?_, ?_⟩
    · rw [Value.roll_withLevel]
      exact hinner.balanced
    · rw [Value.operands_withLevel]
      exact hinner.operands
    · simp [Value.roll_withLevel, Expression.IsSuccess]
  | comparison relation _ _ _ _ => exact hfree.elim

end Evaluates

/-- What an evaluation without comparisons gives is balanced, and a comparison of two such trees
has their values for its sides and nothing but the result for itself. -/
theorem evaluate_agrees {σ : Type} [Source σ] {limits : Limits} {tree : Expression}
    {source after : σ} {value : Value} (h : tree.evaluate limits source = .ok value after) :
    (tree.IsComparisonFree → value.Agrees tree) ∧
    ∀ left relation right, tree = .comparison left relation right →
      left.IsComparisonFree → right.IsComparisonFree →
      (∃ first second, value.operands = some (first, second) ∧ first.Agrees left ∧
        second.Agrees right) ∧
      value.roll.dice = [] ∧ value.roll.constant = 0 ∧
        (value.roll.total = -1 ∨ value.roll.total = 0 ∨ value.roll.total = 1) := by
  have hevaluates := evaluate_eq_ok_iff.mp h
  refine ⟨hevaluates.agrees, ?_⟩
  rintro left relation right rfl hleft hright
  cases hevaluates with
  | comparison _ hfirst hsecond =>
    exact ⟨⟨_, _, rfl, hfirst.agrees hleft, hsecond.agrees hright⟩, rfl, rfl,
      Relation.compare_cases _ _ relation⟩

theorem evaluate_agrees_replay :
    (∃ value after, Expression.evaluate {} (.difference
        (.pool ⟨2, 6, some (.takeHigh 1), none⟩) (.target (.number 1) .low 3))
        (Replay.ofList [2, 5]) = .ok value after ∧
      value.roll.total = (value.roll.dice.map Die.contribution).sum + value.roll.constant) ∧
    ∃ value after, Expression.evaluate {} (.comparison (.pool ⟨1, 6, none, none⟩) .order
        (.success (.number 4) 3 1)) (Replay.ofList [1]) = .ok value after ∧
      value.roll.dice = [] ∧ value.operands ≠ none := by
  have hdifference : Expression.evaluate {} (.difference
      (.pool ⟨2, 6, some (.takeHigh 1), none⟩) (.target (.number 1) .low 3))
      (Replay.ofList [2, 5]) =
        .ok (.plain ⟨[⟨2, .discarded, false⟩, ⟨5, .kept, false⟩], 4, -1, none⟩) ⟨2, []⟩ := by
    cbv
  have hcomparison : Expression.evaluate {} (.comparison (.pool ⟨1, 6, none, none⟩) .order
      (.success (.number 4) 3 1)) (Replay.ofList [1]) =
        .ok (.versus ⟨[], -1, 0, none⟩ (.plain ⟨[⟨1, .kept, false⟩], 1, 0, none⟩)
          (.plain ⟨[], 4, 4, some 2⟩)) ⟨1, []⟩ := by
    cbv
  obtain ⟨⟨first, second, hoperands, _⟩, hdice, _⟩ :=
    (evaluate_agrees hcomparison).2 _ _ _ rfl trivial trivial
  refine ⟨⟨_, _, hdifference, ?_⟩, _, _, hcomparison, hdice, ?_⟩
  · exact ((evaluate_agrees hdifference).1 ⟨trivial, trivial⟩).balanced
  · simp [hoperands]

end DiceNotation
