import DiceNotation.Proofs.Evaluation.Balance

/-!
# Targets over sums and differences

A target looks at each die by itself, and not at the side of a total on which the die stands. So the
hits of two sides are the same whether they are counted before the sides are put together or after.
-/

namespace DiceNotation

namespace Die

/-- The die counts, and it shows the threshold or a face on this side of it. -/
def IsHit (side : Side) (threshold : Int) (die : Die) : Prop :=
  die.status ≠ .discarded ∧
    match side with
    | .high => threshold ≤ die.value
    | .low => die.value ≤ threshold

instance (side : Side) (threshold : Int) (die : Die) : Decidable (die.IsHit side threshold) :=
  match side with
  | .high => inferInstanceAs (Decidable (_ ∧ threshold ≤ die.value))
  | .low => inferInstanceAs (Decidable (_ ∧ die.value ≤ threshold))

def sign (die : Die) : Int := if die.negative then -1 else 1

/-- The number of hits, where a hit on a subtracted side counts against the others. -/
def hits (side : Side) (threshold : Int) (dice : List Die) : Int :=
  ((dice.filter (·.IsHit side threshold)).map sign).sum

section Recoding

variable (side : Side) (threshold : Int)

theorem recode_flip (die : Die) :
    die.flip.recode side threshold = (die.recode side threshold).flip := by
  obtain ⟨value, status, negative⟩ := die
  cases status <;> rfl

theorem map_recode_flip (dice : List Die) :
    (dice.map flip).map (recode side threshold) = (dice.map (recode side threshold)).map flip := by
  simp only [List.map_map, Function.comp_def, recode_flip]

theorem contribution_recode (die : Die) :
    (die.recode side threshold).contribution =
      if die.IsHit side threshold then die.sign else 0 := by
  obtain ⟨value, status, negative⟩ := die
  by_cases hstatus : status = .discarded
  · simp [recode, contribution, IsHit, hstatus]
  · cases side <;> cases negative <;>
      simp [recode, contribution, signed, sign, IsHit, hstatus, apply_ite]

theorem total_map_recode (dice : List Die) :
    total (dice.map (recode side threshold)) = hits side threshold dice := by
  induction dice with
  | nil => rfl
  | cons die dice ih =>
    rw [List.map_cons, total_cons, ih, contribution_recode, hits, hits, List.filter_cons]
    by_cases hhit : die.IsHit side threshold <;> simp [hhit]

theorem hits_append (first second : List Die) :
    hits side threshold (first ++ second) =
      hits side threshold first + hits side threshold second := by
  simp [hits]

theorem hits_map_flip (dice : List Die) :
    hits side threshold (dice.map flip) = -hits side threshold dice := by
  rw [← total_map_recode, map_recode_flip, total_map_flip, total_map_recode]

end Recoding

end Die

namespace Value

variable (side : Side) (threshold : Int) (left right : Value)

theorem target_eq (inner : Value) :
    inner.target side threshold = .plain {
      dice := inner.roll.dice.map (Die.recode side threshold)
      total := Die.hits side threshold inner.roll.dice + inner.roll.constant
      constant := inner.roll.constant } := by
  rw [target, Die.total_map_recode]

theorem target_sum :
    (left.sum right).target side threshold =
      (left.target side threshold).sum (right.target side threshold) := by
  simp only [target_eq, sum, roll_plain, List.map_append, Die.hits_append, plain.injEq,
    Roll.mk.injEq, true_and, and_true]
  omega

theorem target_difference :
    (left.difference right).target side threshold =
      (left.target side threshold).difference (right.target side threshold) := by
  simp only [target_eq, difference, roll_plain, List.map_append, Die.map_recode_flip,
    Die.hits_append, Die.hits_map_flip, plain.injEq, Roll.mk.injEq, true_and, and_true]
  omega

end Value

namespace Expression

variable {σ : Type} [Source σ]

/-- A target over a sum or a difference is the sum or the difference of the targets, whatever the
source gives and however it ends. So the hits on the right side of a difference are subtracted, and
the constants pass through. -/
theorem evaluate_target_distributes (limits : Limits) (left right : Expression) (side : Side)
    (threshold : Int) :
    ((target (sum left right) side threshold).evaluate limits : Rolling σ Value) =
        (sum (target left side threshold) (target right side threshold)).evaluate limits ∧
      ((target (difference left right) side threshold).evaluate limits : Rolling σ Value) =
        (difference (target left side threshold) (target right side threshold)).evaluate limits ∧
      ∀ {source after : σ} {value : Value},
        (target (difference left right) side threshold).evaluate limits source =
          .ok value after →
        ∃ first middle second, left.evaluate limits source = .ok first middle ∧
          right.evaluate limits middle = .ok second after ∧
          value.roll.total =
            Die.hits side threshold first.roll.dice - Die.hits side threshold second.roll.dice +
              value.roll.constant ∧
          value.roll.constant = first.roll.constant - second.roll.constant := by
  refine ⟨Rolling.map_both (Value.target_sum side threshold),
    Rolling.map_both (Value.target_difference side threshold), ?_⟩
  intro source after value h
  obtain ⟨inner, hinner, rfl⟩ := Rolling.map_eq_ok.mp h
  obtain ⟨first, middle, second, hfirst, hsecond, rfl⟩ := Rolling.both_eq_ok.mp hinner
  refine ⟨first, middle, second, hfirst, hsecond, ?_, rfl⟩
  rw [Value.target_eq]
  simp only [Value.roll_plain, Value.difference, Die.hits_append, Die.hits_map_flip,
    Int.sub_eq_add_neg]

theorem evaluate_target_distributes_subtracted :
    ∃ value after first second,
      evaluate {} (difference (target (sum (pool ⟨2, 4, none, none⟩) (number 5)) .high 3)
        (target (pool ⟨2, 4, none, none⟩) .high 3)) (Replay.ofList [4, 3, 1, 4]) =
          .ok value after ∧
      value.roll.total = Die.hits .high 3 first - Die.hits .high 3 second + 5 ∧
      value.roll.total = 6 := by
  have hvalue : evaluate {} (target (difference (sum (pool ⟨2, 4, none, none⟩) (number 5))
      (pool ⟨2, 4, none, none⟩)) .high 3) (Replay.ofList [4, 3, 1, 4]) =
        .ok (.plain ⟨[⟨1, .kept, false⟩, ⟨1, .kept, false⟩, ⟨0, .kept, true⟩, ⟨1, .kept, true⟩], 6,
          5, none⟩) ⟨4, []⟩ := by
    cbv
  obtain ⟨first, _, second, _, _, htotal, _⟩ := (evaluate_target_distributes {} _ _ _ _).2.2 hvalue
  rw [(evaluate_target_distributes {} _ _ _ _).2.1] at hvalue
  exact ⟨_, _, first.roll.dice, second.roll.dice, hvalue, htotal, rfl⟩

end Expression

end DiceNotation
