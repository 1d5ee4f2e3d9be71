import DiceNotation.Expression

/-!
# Forms of expressions

The form of a tree at its root, as far as it decides what may stand behind the tree.
-/

namespace DiceNotation.Expression

def IsSuccess (tree : Expression) : Prop :=
  ∃ inner threshold step, tree = .success inner threshold step

def IsTarget (tree : Expression) : Prop :=
  ∃ inner side threshold, tree = .target inner side threshold

/-- A number, a pool, or a sum or difference of any two trees. -/
def IsSum : Expression → Prop
  | .number _ | .pool _ | .sum _ _ | .difference _ _ => True
  | _ => False

/-- What a symbol behind the tree could go on with: the right side of a comparison, and any other
tree as a whole. -/
def lastSide : Expression → Expression
  | .comparison _ _ right => right
  | tree => tree

theorem IsSum.not_isTarget {tree : Expression} (h : tree.IsSum) : ¬tree.IsTarget := by
  rintro ⟨_, _, _, rfl⟩
  exact h

theorem IsSum.not_isSuccess {tree : Expression} (h : tree.IsSum) : ¬tree.IsSuccess := by
  rintro ⟨_, _, _, rfl⟩
  exact h

theorem IsTarget.not_isSuccess {tree : Expression} (h : tree.IsTarget) : ¬tree.IsSuccess := by
  rintro ⟨_, _, _, rfl⟩
  obtain ⟨_, _, _, h⟩ := h
  cases h

theorem IsSum.lastSide_eq {tree : Expression} (h : tree.IsSum) : tree.lastSide = tree := by
  cases tree <;> first | rfl | cases h

end DiceNotation.Expression
