import DiceNotation.Proofs.Evaluation.BetterSets
import Mathlib

/-!
# Higher faces

What a pool comes to when no face falls lower. Other dice may then be kept than before, so the dice
cannot be compared one by one; but the values that are kept are a block of all values in ascending
order, and at each place of this order the value is no lower than before. Groups of equal dice are
left out: a higher face may break up the largest one. So are explosions, which draw more faces.
-/

namespace DiceNotation

/-- No dice follow other ones, and none is kept for showing the same as others. -/
def Modifier.IsSteady : Option Modifier → Prop
  | none => True
  | some (.addEach _) | some (.subtractEach _) => True
  | some (.takeLow _) | some (.takeHigh _) | some (.takeMiddle _) => True
  | some .advantage | some .disadvantage => True
  | some (.explode _ _) | some (.explodeEach _ _) | some .bestGroup => False

namespace Selection

/-! ### Values in ascending order -/

section Order

variable {values values' : List Int}

/-- A value of a sorted list is within a bound just if more values are so than stand before it. -/
theorem lt_countP_iff {sorted : List Int} (hsorted : sorted.Pairwise (· ≤ ·)) (bound : Int)
    {i : Nat} (hi : i < sorted.length) :
    i < sorted.countP (· ≤ bound) ↔ sorted[i] ≤ bound := by
  induction hsorted generalizing i with
  | nil => cases hi
  | @cons first sorted hfirst _ ih =>
    by_cases hle : first ≤ bound
    · rw [List.countP_cons_of_pos (by simpa using hle)]
      cases i with
      | zero => simpa using hle
      | succ i => simpa using ih (Nat.lt_of_succ_lt_succ hi)
    · -- No value is within the bound, since the first one is the lowest.
      have hleast : ∀ value ∈ first :: sorted, first ≤ value :=
        List.forall_mem_cons.mpr ⟨Int.le_refl first, hfirst⟩
      have hnone : (first :: sorted).countP (· ≤ bound) = 0 := by
        rw [List.countP_eq_zero]
        intro value hvalue
        have := hleast value hvalue
        simp only [decide_eq_true_eq]
        omega
      have := hleast _ (List.getElem_mem hi)
      rw [hnone]
      omega

theorem countP_le_of_forall₂ (h : List.Forall₂ (· ≤ ·) values values') (bound : Int) :
    values'.countP (· ≤ bound) ≤ values.countP (· ≤ bound) := by
  induction h with
  | nil => exact Nat.le_refl _
  | cons hle _ ih =>
    simp only [List.countP_cons, decide_eq_true_eq]
    split_ifs <;> omega

theorem forall₂_ascending (h : List.Forall₂ (· ≤ ·) values values') :
    List.Forall₂ (· ≤ ·) (ascending values) (ascending values') := by
  have hperm : ∀ values : List Int, (ascending values).Perm values := fun values =>
    List.mergeSort_perm values _
  have hlength : (ascending values).length = (ascending values').length := by
    rw [(hperm values).length_eq, (hperm values').length_eq, h.length_eq]
  apply List.forall₂_of_length_eq_of_get hlength
  intro i hi hi'
  have hcount : i < values'.countP (· ≤ (ascending values')[i]) := by
    rw [← (hperm values').countP_eq]
    exact (lt_countP_iff (pairwise_mergeSort_le values') _ hi').mpr (Int.le_refl _)
  have hmore : i < (ascending values).countP (· ≤ (ascending values')[i]) := by
    rw [(hperm values).countP_eq]
    exact hcount.trans_le (countP_le_of_forall₂ h _)
  exact (lt_countP_iff (pairwise_mergeSort_le values) _ hi).mp hmore

end Order

/-! ### Selections -/

section Totals

variable {faces faces' : List Int}

theorem IsByRank.total_le {select : List Die → List Die} (h : IsByRank select)
    (hle : List.Forall₂ (· ≤ ·) faces faces') :
    Die.total (select (faces.map (Die.showing .kept))) ≤
      Die.total (select (faces'.map (Die.showing .kept))) := by
  have hplain : ∀ faces : List Int, ∀ die ∈ faces.map (Die.showing .kept),
      die.negative = false := by
    simp [Die.showing]
  obtain ⟨low, kept, high, hkeeps⟩ := h faces.length
  have hfirst := hkeeps (faces.map (Die.showing .kept)) (List.length_map _) (by simp [Die.showing])
  have hsecond := hkeeps (faces'.map (Die.showing .kept))
    ((List.length_map _).trans hle.length_eq.symm) (by simp [Die.showing])
  rw [hfirst.total_eq (hplain faces), hsecond.total_eq (hplain faces'), Pool.map_value_showing,
    Pool.map_value_showing]
  apply List.Forall₂.sum_le_sum
  exact List.forall₂_take kept (List.forall₂_drop low (forall₂_ascending hle))

theorem total_map_le {f : Int → Int} (hf : Monotone f)
    (hle : List.Forall₂ (· ≤ ·) faces faces') :
    Die.total ((faces.map (Die.showing .kept)).map fun die => { die with value := f die.value }) ≤
      Die.total
        ((faces'.map (Die.showing .kept)).map fun die => { die with value := f die.value }) := by
  have hmap : ∀ faces : List Int, Die.total ((faces.map (Die.showing .kept)).map
      fun die => { die with value := f die.value }) = (faces.map f).sum := by
    intro faces
    rw [← Die.total_showing_kept, List.map_map, List.map_map]
    rfl
  rw [hmap, hmap]
  apply List.Forall₂.sum_le_sum
  exact List.rel_map (fun _ _ h => hf h) hle

theorem total_select_le {modifier : Option Modifier} {select : List Die → List Die}
    (hsteady : Modifier.IsSteady modifier)
    (hselect : Modifier.selection? modifier = some select)
    (hle : List.Forall₂ (· ≤ ·) faces faces') :
    Die.total (select (faces.map (Die.showing .kept))) ≤
      Die.total (select (faces'.map (Die.showing .kept))) := by
  cases modifier with
  | none =>
    cases hselect
    rw [id_eq, id_eq, Die.total_showing_kept, Die.total_showing_kept]
    exact hle.sum_le_sum
  | some modifier =>
    cases modifier with
    | explode | explodeEach | advantage | disadvantage => cases hselect
    | bestGroup => exact hsteady.elim
    | addEach amount =>
      cases hselect
      exact total_map_le (fun _ _ h => Int.add_le_add_right h amount) hle
    | subtractEach amount =>
      cases hselect
      exact total_map_le (fun _ _ h => Int.sub_le_sub_right h amount) hle
    | takeLow count =>
      cases hselect
      exact (isByRank_lowest count).total_le hle
    | takeHigh count =>
      cases hselect
      exact (isByRank_highest count).total_le hle
    | takeMiddle count =>
      cases hselect
      exact (isByRank_middle count).total_le hle

theorem total_betterSet (high : Bool) (first second : List Int) :
    Die.total (betterSet high (first.map (Die.showing .kept)) (second.map (Die.showing .kept))) =
      (if high then max else min) first.sum second.sum :=
  (keepsOneSet_betterSet high first second).total

theorem total_betterSet_le (high : Bool) {first first' second second' : List Int}
    (hfirst : List.Forall₂ (· ≤ ·) first first') (hsecond : List.Forall₂ (· ≤ ·) second second') :
    Die.total (betterSet high (first.map (Die.showing .kept)) (second.map (Die.showing .kept))) ≤
      Die.total (betterSet high (first'.map (Die.showing .kept))
        (second'.map (Die.showing .kept))) := by
  rw [total_betterSet, total_betterSet]
  cases high with
  | true => exact max_le_max hfirst.sum_le_sum hsecond.sum_le_sum
  | false => exact min_le_min hfirst.sum_le_sum hsecond.sum_le_sum

end Totals

end Selection

namespace Pool

variable {limits : Limits} {pool : Pool} {faces faces' : List Int} {dice dice' : List Die}

/-- The dice are rolled once, and then something is made of them, or they are rolled twice. -/
theorem select_or_twice_of_isSteady {modifier : Option Modifier} (h : Modifier.IsSteady modifier) :
    (∃ select, Modifier.selection? modifier = some select) ∨
      ∃ high : Bool, modifier = some (if high then .advantage else .disadvantage) := by
  cases modifier with
  | none => exact .inl ⟨_, rfl⟩
  | some modifier =>
    cases modifier with
    | explode | explodeEach | bestGroup => exact h.elim
    | advantage => exact .inr ⟨true, rfl⟩
    | disadvantage => exact .inr ⟨false, rfl⟩
    | addEach | subtractEach | takeLow | takeHigh | takeMiddle => exact .inl ⟨_, rfl⟩

theorem Shows.length_eq (h : pool.Shows faces dice) (h' : pool.Shows faces' dice')
    (hsteady : Modifier.IsSteady pool.modifier) : faces.length = faces'.length := by
  obtain ⟨select, hselect⟩ | ⟨high, htwice⟩ := select_or_twice_of_isSteady hsteady
  · obtain ⟨hlength, -⟩ := (shows_iff_of_select hselect).mp h
    obtain ⟨hlength', -⟩ := (shows_iff_of_select hselect).mp h'
    exact hlength.trans hlength'.symm
  · obtain ⟨first, second, rfl, hfirst, hsecond, -⟩ := (shows_iff_of_twice htwice).mp h
    obtain ⟨first', second', rfl, hfirst', hsecond', -⟩ := (shows_iff_of_twice htwice).mp h'
    rw [List.length_append, List.length_append, hfirst, hsecond, hfirst', hsecond']

theorem Shows.total_le (h : pool.Shows faces dice) (h' : pool.Shows faces' dice')
    (hsteady : Modifier.IsSteady pool.modifier) (hle : List.Forall₂ (· ≤ ·) faces faces') :
    Die.total dice ≤ Die.total dice' := by
  obtain ⟨select, hselect⟩ | ⟨high, htwice⟩ := select_or_twice_of_isSteady hsteady
  · rw [h.eq_select hselect, h'.eq_select hselect]
    exact Selection.total_select_le hsteady hselect hle
  · obtain ⟨first, second, rfl, hfirst, -, rfl⟩ := (shows_iff_of_twice htwice).mp h
    obtain ⟨first', second', rfl, hfirst', -, rfl⟩ := (shows_iff_of_twice htwice).mp h'
    have hfronts := List.forall₂_take pool.count.toNat hle
    have hbacks := List.forall₂_drop pool.count.toNat hle
    rw [List.take_left' hfirst, List.take_left' hfirst'] at hfronts
    rw [List.drop_left' hfirst, List.drop_left' hfirst'] at hbacks
    exact Selection.total_betterSet_le high hfronts hbacks

/-- If no face of a list is lower than in another one, the pool comes to no lower total on it. -/
theorem evaluate_total_le (hsteady : Modifier.IsSteady pool.modifier)
    {supplied supplied' : Nat} {after after' : Replay} {value value' : Value}
    (hle : List.Forall₂ (· ≤ ·) faces faces')
    (h : (Expression.pool pool).evaluate limits (⟨supplied, faces⟩ : Replay) = .ok value after)
    (h' : (Expression.pool pool).evaluate limits (⟨supplied', faces'⟩ : Replay) =
      .ok value' after') :
    value.roll.total ≤ value'.roll.total := by
  obtain ⟨-, drawn, dice, hgives, hshows, rfl⟩ := evaluate_eq_ok_iff_shows.mp h
  obtain ⟨-, drawn', dice', hgives', hshows', rfl⟩ := evaluate_eq_ok_iff_shows.mp h'
  obtain ⟨-, -, rfl⟩ := Replay.gives_iff.mp hgives
  obtain ⟨-, -, rfl⟩ := Replay.gives_iff.mp hgives'
  -- As many faces are drawn from both lists, so it is the drawn ones that are compared.
  have hdrawn := List.forall₂_take drawn.length hle
  rw [Throw.map_face, Throw.map_face, List.take_left' rfl,
    List.take_left' (hshows.length_eq hshows' hsteady).symm] at hdrawn
  exact hshows.total_le hshows' hsteady hdrawn

theorem evaluate_total_le_middle :
    ∃ value after value' after',
      Expression.evaluate {} (.pool ⟨5, 6, some (.takeMiddle 2), none⟩)
        (Replay.ofList [1, 5, 3, 2, 6]) = .ok value after ∧
      Expression.evaluate {} (.pool ⟨5, 6, some (.takeMiddle 2), none⟩)
        (Replay.ofList [4, 5, 3, 2, 6]) = .ok value' after' ∧
      value.roll.total = 8 ∧ 8 ≤ value'.roll.total := by
  have hvalue : Expression.evaluate {} (.pool ⟨5, 6, some (.takeMiddle 2), none⟩)
      (Replay.ofList [1, 5, 3, 2, 6]) =
        .ok (.plain ⟨[⟨1, .discarded, false⟩, ⟨5, .kept, false⟩, ⟨3, .kept, false⟩,
          ⟨2, .discarded, false⟩, ⟨6, .discarded, false⟩], 8, 0, none⟩) ⟨5, []⟩ := by
    cbv
  have hhigher : Expression.evaluate {} (.pool ⟨5, 6, some (.takeMiddle 2), none⟩)
      (Replay.ofList [4, 5, 3, 2, 6]) =
        .ok (.plain ⟨[⟨4, .kept, false⟩, ⟨5, .kept, false⟩, ⟨3, .discarded, false⟩,
          ⟨2, .discarded, false⟩, ⟨6, .discarded, false⟩], 9, 0, none⟩) ⟨5, []⟩ := by
    cbv
  have hle : List.Forall₂ (· ≤ ·) ([1, 5, 3, 2, 6] : List Int) [4, 5, 3, 2, 6] := by simp
  exact ⟨_, _, _, _, hvalue, hhigher, rfl, evaluate_total_le (by exact trivial) hle hvalue hhigher⟩

/-- A higher face can break up the best group. -/
example : Die.total (Selection.bestGroup ([3, 3, 1].map (Die.showing .kept))) = 6 ∧
    Die.total (Selection.bestGroup ([3, 4, 1].map (Die.showing .kept))) = 4 := by
  constructor <;> cbv

end Pool

end DiceNotation
