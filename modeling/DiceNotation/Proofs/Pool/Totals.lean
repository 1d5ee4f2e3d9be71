import DiceNotation.Proofs.Pool.Faces
import DiceNotation.Proofs.Pool.Keeping
import Mathlib

/-!
# Totals of selected dice

What the dice of a selection come to. As long as no die is negative only the values of those that
are kept count, wherever they stand among the others.
-/

namespace DiceNotation

namespace Die

theorem total_map_showing (status : Status) (faces : List Int) :
    total (faces.map (showing status)) = if status = .discarded then 0 else faces.sum := by
  induction faces with
  | nil => simp
  | cons face faces ih =>
    rw [List.map_cons, total_cons, ih, List.sum_cons]
    cases status <;> simp [showing, contribution, signed]

theorem total_showing_kept (faces : List Int) :
    total (faces.map (showing .kept)) = faces.sum :=
  total_map_showing .kept faces

end Die

namespace Selection

theorem total_eq_sum_valuesOf {dice : List Die}
    (hstatus : ∀ die ∈ dice, die.status = .kept ∨ die.status = .discarded)
    (hplain : ∀ die ∈ dice, die.negative = false) :
    Die.total dice = (valuesOf .kept dice).sum := by
  induction dice with
  | nil => rfl
  | cons die dice ih =>
    obtain ⟨hdie, hstatus⟩ := List.forall_mem_cons.mp hstatus
    obtain ⟨hnegative, hplain⟩ := List.forall_mem_cons.mp hplain
    have hrest : Die.total dice = ((dice.filter (·.status = .kept)).map (·.value)).sum :=
      ih hstatus hplain
    rw [Die.total_cons, hrest, valuesOf, Die.contribution, Die.signed, hnegative]
    rcases hdie with hdie | hdie <;> simp [hdie]

theorem Keeps.total_eq {low kept high : Nat} {dice selected : List Die}
    (h : Keeps low kept high dice selected)
    (hplain : ∀ die ∈ dice, die.negative = false) :
    Die.total selected = (((ascending (dice.map (·.value))).drop low).take kept).sum := by
  rw [total_eq_sum_valuesOf h.status (plain_of_same h.same hplain), ← h.values]
  exact (List.mergeSort_perm _ _).sum_eq.symm

end Selection

end DiceNotation
