import DiceNotation.Proofs.Evaluation.Faces
import DiceNotation.Proofs.Pool.Totals
import Mathlib

/-!
# The best group

Of the groups of equal dice one is kept as a whole: the largest one, and of several that are equally
large the one with the highest face. The order in which the dice fell plays no part in it.
-/

namespace DiceNotation

namespace Selection

/-- No other face has as many dice, unless it is a lower one. -/
structure IsBestFace (faces : List Int) (best : Int) : Prop where
  mem : best ∈ faces
  beats : ∀ other ∈ faces, other ≠ best →
    faces.count other < faces.count best ∨ faces.count other = faces.count best ∧ other < best

/-- The selected dice are the given ones, but for their status: those that show the face are kept
and all others are discarded. -/
structure KeepsFace (face : Int) (dice selected : List Die) : Prop where
  same : selected.map (fun die => (die.value, die.negative)) =
    dice.map fun die => (die.value, die.negative)
  status : ∀ die ∈ selected, die.status = if die.value = face then .kept else .discarded

variable {faces : List Int} {dice selected : List Die} {face best : Int}

theorem isBestFace_of_bestFace? (h : bestFace? faces = some best) : IsBestFace faces best := by
  obtain ⟨hmem, hbest⟩ := bestFace?_spec h
  refine ⟨hmem, fun other hother hne => ?_⟩
  obtain hlt | ⟨hsame, hle⟩ := hbest other hother
  · exact .inl hlt
  · exact .inr ⟨hsame, by omega⟩

theorem IsBestFace.count_le (h : IsBestFace faces best) (other : Int) :
    faces.count other ≤ faces.count best := by
  by_cases hmem : other ∈ faces
  · by_cases hsame : other = best
    · rw [hsame]
    · obtain hlt | ⟨hcount, -⟩ := h.beats other hmem hsame
      · exact hlt.le
      · exact hcount.le
  · rw [List.count_eq_zero.mpr hmem]
    exact Nat.zero_le _

theorem keepsFace_keepFace (face : Int) (dice : List Die) :
    KeepsFace face dice (keepFace face dice) := by
  constructor
  case same =>
    rw [keepFace, List.map_map]
    rfl
  case status =>
    intro die hdie
    obtain ⟨original, -, rfl⟩ := List.mem_map.mp hdie
    rfl

theorem exists_keepsFace_bestGroup (hdice : dice ≠ []) :
    ∃ best, IsBestFace (dice.map (·.value)) best ∧ KeepsFace best dice (bestGroup dice) := by
  obtain ⟨best, hbest⟩ : ∃ best, bestFace? (dice.map (·.value)) = some best := by
    rw [← Option.ne_none_iff_exists', ne_eq, bestFace?_eq_none_iff, List.map_eq_nil_iff]
    exact hdice
  refine ⟨best, isBestFace_of_bestFace? hbest, ?_⟩
  rw [bestGroup, hbest]
  exact keepsFace_keepFace best dice

theorem KeepsFace.values (h : KeepsFace face dice selected) :
    selected.map (·.value) = dice.map (·.value) := by
  have hvalues := congrArg (List.map Prod.fst) h.same
  rwa [List.map_map, List.map_map] at hvalues

/-- The dice that are kept show the face, and all that show it are kept. -/
theorem KeepsFace.valuesOf_kept (h : KeepsFace face dice selected) :
    valuesOf .kept selected = List.replicate ((dice.map (·.value)).count face) face := by
  have hkept : selected.filter (·.status = .kept) = selected.filter (·.value == face) := by
    refine List.filter_congr fun die hdie => ?_
    rw [h.status die hdie]
    by_cases hvalue : die.value = face <;> simp [hvalue]
  calc
    valuesOf .kept selected = (selected.filter (·.value == face)).map (·.value) := by
      rw [valuesOf, hkept]
    _ = (selected.map (·.value)).filter (· == face) := by
      rw [List.filter_map]
      rfl
    _ = List.replicate ((dice.map (·.value)).count face) face := by
      rw [h.values, List.filter_beq]

theorem KeepsFace.total (h : KeepsFace face dice selected)
    (hplain : ∀ die ∈ dice, die.negative = false) :
    Die.total selected = face * (dice.map (·.value)).count face := by
  have hstatus : ∀ die ∈ selected, die.status = .kept ∨ die.status = .discarded := by
    intro die hdie
    rw [h.status die hdie]
    exact ite_eq_or_eq _ _ _
  rw [total_eq_sum_valuesOf hstatus (plain_of_same h.same hplain), h.valuesOf_kept,
    List.sum_replicate, nsmul_eq_mul, mul_comm]

end Selection

namespace Pool

open Selection

/-- Of any dice the best group is kept and all others are discarded. What a pool that asks for it
comes to is therefore the best face as often as it fell, and no other face fell more often. -/
theorem evaluate_bestGroup :
    (∀ dice : List Die, dice ≠ [] →
      ∃ best, IsBestFace (dice.map (·.value)) best ∧ KeepsFace best dice (bestGroup dice)) ∧
    ∀ (limits : Limits) (pool : Pool) {σ : Type} [Source σ] (source after : σ) (value : Value),
      pool.modifier = some .bestGroup → 1 ≤ pool.count →
      (Expression.pool pool).evaluate limits source = .ok value after →
      ∃ (faces : List Int) (best : Int),
        Source.Gives source (faces.map (Throw.mk pool.sides)) after ∧
        faces.length = pool.count ∧ IsBestFace faces best ∧
        KeepsFace best (faces.map (Die.showing .kept)) value.roll.dice ∧
        value.roll.total = best * faces.count best ∧
        ∀ other, faces.count other ≤ faces.count best := by
  constructor
  · intro dice hdice
    exact exists_keepsFace_bestGroup hdice
  · intro limits pool σ _ source after value hmodifier hcount h
    obtain ⟨hadmissible, faces, dice, hgives, hshows, rfl⟩ := evaluate_eq_ok_iff_shows.mp h
    have hselect : Modifier.selection? pool.modifier = some bestGroup := by rw [hmodifier]; rfl
    obtain ⟨hlength, rfl⟩ := (shows_iff_of_select hselect).mp hshows
    rw [length_eq_toNat_iff hadmissible] at hlength
    have hdice : faces.map (Die.showing .kept) ≠ [] := by
      apply List.ne_nil_of_length_pos
      rw [List.length_map]
      omega
    obtain ⟨best, hbest, hkeeps⟩ := exists_keepsFace_bestGroup hdice
    have htotal := hkeeps.total (by simp [Die.showing])
    rw [map_value_showing] at hbest htotal
    exact ⟨faces, best, hgives, hlength, hbest, hkeeps, htotal, hbest.count_le⟩

theorem evaluate_bestGroup_ties :
    (∃ best, IsBestFace [2, 5, 2, 5, 1] best ∧
      KeepsFace best ([2, 5, 2, 5, 1].map (Die.showing .kept))
        (bestGroup ([2, 5, 2, 5, 1].map (Die.showing .kept)))) ∧
    ∃ value after best,
      Expression.evaluate {} (.pool ⟨5, 6, some .bestGroup, none⟩)
        (Replay.ofList [2, 5, 2, 5, 1]) = .ok value after ∧
      value.roll.total = 10 ∧ IsBestFace [2, 5, 2, 5, 1] best ∧
      best * ([2, 5, 2, 5, 1] : List Int).count best = 10 := by
  have hvalue : Expression.evaluate {} (.pool ⟨5, 6, some .bestGroup, none⟩)
      (Replay.ofList [2, 5, 2, 5, 1]) =
        .ok (.plain ⟨[⟨2, .discarded, false⟩, ⟨5, .kept, false⟩, ⟨2, .discarded, false⟩,
          ⟨5, .kept, false⟩, ⟨1, .discarded, false⟩], 10, 0, none⟩) ⟨5, []⟩ := by
    cbv
  constructor
  · exact evaluate_bestGroup.1 ([2, 5, 2, 5, 1].map (Die.showing .kept)) (by decide)
  · obtain ⟨faces, best, hgives, -, hbest, -, htotal, -⟩ :=
      evaluate_bestGroup.2 _ _ _ _ _ rfl (by decide) hvalue
    obtain ⟨-, -, hfaces⟩ := Replay.gives_iff.mp hgives
    obtain rfl : [2, 5, 2, 5, 1] = faces := by
      rwa [Throw.map_face, List.append_nil] at hfaces
    exact ⟨_, _, best, hvalue, rfl, hbest, htotal.symm⟩

end Pool

end DiceNotation
