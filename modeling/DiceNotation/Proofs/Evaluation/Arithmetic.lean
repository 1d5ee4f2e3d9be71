import DiceNotation.Proofs.Evaluation.Balance

/-!
# Sums and differences

What a tree of sums and differences comes to, told by its leaves. They are evaluated from left to
right, and each is added or subtracted as a whole. Which of the two depends on nothing but the
number of differences that have it on their right side.
-/

namespace DiceNotation

/-- An expression under a number of differences, all of which have it on their right side. -/
structure Leaf where
  depth : Nat
  tree : Expression

/-- A tree of sums and differences over any expressions, which may be sums again. -/
inductive Combination where
  | leaf (tree : Expression)
  | sum (left right : Combination)
  | difference (left right : Combination)

namespace Combination

def expression : Combination → Expression
  | .leaf tree => tree
  | .sum left right => .sum left.expression right.expression
  | .difference left right => .difference left.expression right.expression

/-- The leaves from left to right, where the whole is already under this number of differences. -/
def leavesUnder (depth : Nat) : Combination → List Leaf
  | .leaf tree => [⟨depth, tree⟩]
  | .sum left right => left.leavesUnder depth ++ right.leavesUnder depth
  | .difference left right => left.leavesUnder depth ++ right.leavesUnder (depth + 1)

def leaves (combination : Combination) : List Leaf := combination.leavesUnder 0

end Combination

namespace Roll

/-- What the roll of a leaf adds: under an odd number of differences all is subtracted, and each die
is on the other side. -/
def under (depth : Nat) (roll : Roll) : Roll :=
  if depth % 2 = 1 then
    { dice := roll.dice.map Die.flip, total := -roll.total, constant := -roll.constant }
  else { dice := roll.dice, total := roll.total, constant := roll.constant }

def join (first second : Roll) : Roll where
  dice := first.dice ++ second.dice
  total := first.total + second.total
  constant := first.constant + second.constant

/-- The rolls put together, with the dice in their order. -/
def gather (rolls : List Roll) : Roll where
  dice := (rolls.map (·.dice)).flatten
  total := (rolls.map (·.total)).sum
  constant := (rolls.map (·.constant)).sum

theorem gather_append (first second : List Roll) :
    gather (first ++ second) = (gather first).join (gather second) := by
  simp [gather, join]

theorem gather_under (depth : Nat) (roll : Roll) :
    gather [roll.under depth] = roll.under depth := by
  unfold under
  split_ifs <;> simp [gather]

theorem under_of_odd {depth : Nat} (h : depth % 2 = 1) (roll : Roll) :
    roll.under depth =
      { dice := roll.dice.map Die.flip, total := -roll.total, constant := -roll.constant } :=
  if_pos h

theorem under_of_even {depth : Nat} (h : depth % 2 = 0) (roll : Roll) :
    roll.under depth =
      { dice := roll.dice, total := roll.total, constant := roll.constant } :=
  if_neg (by omega)

end Roll

theorem Die.flip_flip (die : Die) : die.flip.flip = die := by
  simp [Die.flip]

namespace Value

theorem under_sum (depth : Nat) (left right : Value) :
    (left.sum right).roll.under depth =
      (left.roll.under depth).join (right.roll.under depth) := by
  obtain heven | hodd := Nat.mod_two_eq_zero_or_one depth
  · simp [Roll.under_of_even heven, sum, roll_plain, Roll.join]
  · simp only [Roll.under_of_odd hodd, sum, roll_plain, Roll.join, List.map_append,
      Roll.mk.injEq, true_and, and_true]
    omega

theorem under_difference (depth : Nat) (left right : Value) :
    (left.difference right).roll.under depth =
      (left.roll.under depth).join (right.roll.under (depth + 1)) := by
  obtain heven | hodd := Nat.mod_two_eq_zero_or_one depth
  · have hodd : (depth + 1) % 2 = 1 := by omega
    simp [Roll.under_of_even heven, Roll.under_of_odd hodd, difference, roll_plain, Roll.join,
      Int.sub_eq_add_neg]
  · have heven : (depth + 1) % 2 = 0 := by omega
    simp only [Roll.under_of_odd hodd, Roll.under_of_even heven, difference, roll_plain, Roll.join,
      List.map_append, List.map_map, Function.comp_def, Die.flip_flip, List.map_id_fun', id_eq,
      Roll.mk.injEq, true_and, and_true]
    omega

end Value

namespace Rolling

variable {σ α β γ δ : Type}

theorem mapM_map_eq (f : α → Rolling σ β) (g : α → β → γ) (entries : List α) :
    entries.mapM (fun entry => g entry <$> f entry) =
      List.zipWith g entries <$> entries.mapM f := by
  induction entries with
  | nil => simp
  | cons entry entries ih =>
    rw [List.mapM_cons, List.mapM_cons, ih]
    simp

end Rolling

namespace Combination

variable {σ : Type} [Source σ]

theorem under_evaluate (limits : Limits) (combination : Combination) (depth : Nat) :
    (fun value => value.roll.under depth) <$>
        (combination.expression.evaluate limits : Rolling σ Value) =
      Roll.gather <$> (combination.leavesUnder depth).mapM fun leaf =>
        (fun value => value.roll.under leaf.depth) <$> leaf.tree.evaluate limits := by
  induction combination generalizing depth with
  | leaf tree =>
    simp [leavesUnder, expression, Roll.gather_under]
  | sum left right ihleft ihright =>
    rw [leavesUnder, List.mapM_append, Rolling.map_both Roll.gather_append, ← ihleft, ← ihright]
    exact Rolling.map_both (Value.under_sum depth)
  | difference left right ihleft ihright =>
    rw [leavesUnder, List.mapM_append, Rolling.map_both Roll.gather_append, ← ihleft, ← ihright]
    exact Rolling.map_both (Value.under_difference depth)

/-- No level and no sides of a comparison come through a sum or a difference. -/
theorem plain_under_evaluate (limits : Limits) {combination : Combination}
    (hbranch : ∀ tree, combination ≠ .leaf tree) :
    (fun value => .plain (value.roll.under 0)) <$>
        (combination.expression.evaluate limits : Rolling σ Value) =
      combination.expression.evaluate limits := by
  cases combination with
  | leaf tree => exact absurd rfl (hbranch tree)
  | sum left right | difference left right =>
    simp only [expression, Expression.evaluate, map_bind, map_pure]
    rfl

/-- All leaves are evaluated from left to right. Their dice are shown in this order, and what they
come to is added up, where a leaf under an odd number of differences is subtracted. -/
theorem evaluate_combination {limits : Limits} {combination : Combination}
    (hbranch : ∀ tree, combination ≠ .leaf tree) {source after : σ} {value : Value} :
    combination.expression.evaluate limits source = .ok value after ↔
      ∃ values : List Value,
        combination.leaves.mapM (fun leaf => leaf.tree.evaluate limits) source =
          .ok values after ∧
        value = .plain (Roll.gather (List.zipWith (fun leaf value => value.roll.under leaf.depth)
          combination.leaves values)) := by
  have hunder := combination.under_evaluate (σ := σ) limits 0
  rw [Rolling.mapM_map_eq] at hunder
  have heq : (combination.expression.evaluate limits : Rolling σ Value) =
      (fun values => .plain (Roll.gather (List.zipWith
        (fun leaf value => value.roll.under leaf.depth) combination.leaves values))) <$>
        combination.leaves.mapM fun leaf => leaf.tree.evaluate limits := by
    rw [← plain_under_evaluate limits hbranch, ← Functor.map_map, hunder]
    simp only [Functor.map_map, leaves]
  rw [heq, Rolling.map_eq_ok]
  simp only [eq_comm]

theorem evaluate_combination_nested :
    Expression.evaluate {} (.difference (.number 10) (.difference (.pool ⟨2, 6, none, none⟩)
        (.success (.pool ⟨1, 4, none, none⟩) 2 1))) (Replay.ofList [3, 5, 2]) =
      .ok (.plain {
        dice := [⟨3, .kept, true⟩, ⟨5, .kept, true⟩, ⟨2, .kept, false⟩]
        total := 4
        constant := 10 }) ⟨3, []⟩ := by
  let combination : Combination := .difference (.leaf (.number 10)) (.difference
    (.leaf (.pool ⟨2, 6, none, none⟩)) (.leaf (.success (.pool ⟨1, 4, none, none⟩) 2 1)))
  have hbranch : ∀ tree, combination ≠ .leaf tree := fun _ => Combination.noConfusion
  refine (evaluate_combination hbranch).mpr
    ⟨[.plain ⟨[], 10, 10, none⟩, .plain ⟨[⟨3, .kept, false⟩, ⟨5, .kept, false⟩], 8, 0, none⟩,
      .plain ⟨[⟨2, .kept, false⟩], 2, 0, some 1⟩], ?_, by decide⟩
  cbv

end Combination

end DiceNotation
