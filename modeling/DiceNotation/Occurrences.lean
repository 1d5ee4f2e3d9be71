/-!
# Occurrences

How often each number occurs in a list. The numbers are put in order first, so that equal ones
stand together. The result has every number of the list once, with its count, in ascending order.
-/

namespace DiceNotation

/-- One more of a number that no number in the list is below. -/
def addLeast (n : Int) : List (Int × Nat) → List (Int × Nat)
  | [] => [(n, 1)]
  | (first, count) :: rest =>
    if first = n then (first, count + 1) :: rest else (n, 1) :: (first, count) :: rest

/-- The numbers of the list in ascending order, each with its count. -/
def occurrences (numbers : List Int) : List (Int × Nat) :=
  (numbers.mergeSort (· ≤ ·)).foldr addLeast []

theorem mem_addLeast {n : Int} {counts : List (Int × Nat)} {entry : Int × Nat}
    (h : entry ∈ addLeast n counts) : entry.1 = n ∨ entry ∈ counts := by
  revert h
  fun_cases addLeast n counts <;> intro h <;> simp only [List.mem_cons] at h ⊢
  case case1 =>
    rcases h with rfl | h
    · exact .inl rfl
    · exact .inr h
  case case2 =>
    rcases h with rfl | h
    · exact .inl rfl
    · exact .inr (.inr h)
  case case3 =>
    rcases h with rfl | h
    · exact .inl rfl
    · exact .inr h

theorem mem_of_mem_foldr_addLeast {numbers : List Int} {entry : Int × Nat}
    (h : entry ∈ numbers.foldr addLeast []) : entry.1 ∈ numbers := by
  induction numbers with
  | nil => cases h
  | cons n numbers ih =>
    rcases mem_addLeast h with h | h
    · exact h ▸ List.mem_cons_self
    · exact List.mem_cons_of_mem _ (ih h)

theorem pairwise_foldr_addLeast {numbers : List Int} (h : numbers.Pairwise (· ≤ ·)) :
    (numbers.foldr addLeast []).Pairwise (fun a b => a.1 < b.1) := by
  induction numbers with
  | nil => exact .nil
  | cons n numbers ih =>
    obtain ⟨hn, h⟩ := List.pairwise_cons.mp h
    have hcounts := ih h
    have hmem : ∀ entry ∈ numbers.foldr addLeast [], n ≤ entry.1 := fun entry hentry =>
      hn _ (mem_of_mem_foldr_addLeast hentry)
    rw [List.foldr_cons]
    cases hfold : numbers.foldr addLeast [] with
    | nil => exact List.pairwise_singleton ..
    | cons entry counts =>
      obtain ⟨first, count⟩ := entry
      rw [hfold] at hcounts hmem
      obtain ⟨hfirst, hrest⟩ := List.pairwise_cons.mp hcounts
      rw [addLeast]
      split
      · exact List.pairwise_cons.mpr ⟨hfirst, hrest⟩
      next hne =>
        refine List.pairwise_cons.mpr ⟨fun other hother => ?_, hcounts⟩
        have hle := hmem (first, count) List.mem_cons_self
        rcases List.mem_cons.mp hother with rfl | hother
        · exact Int.lt_iff_le_and_ne.mpr ⟨hle, fun h => hne h.symm⟩
        · exact Int.lt_of_le_of_lt hle (hfirst other hother)

theorem mem_foldr_addLeast_iff {numbers : List Int} (h : numbers.Pairwise (· ≤ ·)) {n : Int}
    {count : Nat} :
    (n, count) ∈ numbers.foldr addLeast [] ↔ n ∈ numbers ∧ count = numbers.count n := by
  induction numbers generalizing n count with
  | nil => simp
  | cons least numbers ih =>
    obtain ⟨hleast, h⟩ := List.pairwise_cons.mp h
    have ih : ∀ {n : Int} {count : Nat}, (n, count) ∈ numbers.foldr addLeast [] ↔
        n ∈ numbers ∧ count = numbers.count n := ih h
    have hpairwise := pairwise_foldr_addLeast h
    rw [List.foldr_cons]
    cases hfold : numbers.foldr addLeast [] with
    | nil =>
      have hnil : numbers = [] := by
        cases numbers with
        | nil => rfl
        | cons other numbers =>
          have : (other, (other :: numbers).count other) ∈ (other :: numbers).foldr addLeast [] :=
            ih.mpr ⟨List.mem_cons_self, rfl⟩
          rw [hfold] at this
          cases this
      subst hnil
      by_cases heq : n = least
      · subst heq
        simp [addLeast]
      · simp [addLeast, heq]
    | cons entry counts =>
      obtain ⟨first, old⟩ := entry
      rw [hfold] at ih hpairwise
      obtain ⟨hfirst, _⟩ := List.pairwise_cons.mp hpairwise
      obtain ⟨hmem, hold⟩ := ih.mp (List.mem_cons_self (a := (first, old)))
      have hle := hleast first hmem
      rw [addLeast]
      split
      next heq =>
        subst heq
        by_cases hn : n = first
        · subst hn
          have hnot : ∀ c, (n, c) ∉ counts := fun c hc => Int.lt_irrefl n (hfirst _ hc)
          simp [hnot, hold]
        · have : (n, count) ∈ (first, old) :: counts ↔ n ∈ numbers ∧ count = numbers.count n := ih
          simp only [List.mem_cons, Prod.mk.injEq, hn, false_and, false_or] at this ⊢
          rw [this, List.count_cons_of_ne fun h => hn h.symm]
      next hne =>
        by_cases hn : n = least
        · subst hn
          have hnot : n ∉ numbers := fun hn => by
            obtain hlt | rfl : n < first ∨ n = first := by omega
            · have : (n, numbers.count n) ∈ (first, old) :: counts := ih.mpr ⟨hn, rfl⟩
              rcases List.mem_cons.mp this with h | h
              · cases h
                exact hne rfl
              · exact Int.lt_asymm hlt (hfirst _ h)
            · exact hne rfl
          have hgone : ∀ c, (n, c) ∉ (first, old) :: counts := fun c hc => hnot (ih.mp hc).1
          rw [List.mem_cons]
          simp [hgone, hnot, List.count_eq_zero.mpr hnot]
        · rw [List.mem_cons, ih, List.count_cons_of_ne fun h => hn h.symm]
          simp [hn]

theorem pairwise_mergeSort_le (numbers : List Int) :
    (numbers.mergeSort (· ≤ ·)).Pairwise (· ≤ ·) := by
  have htrans : ∀ a b c : Int, decide (a ≤ b) = true → decide (b ≤ c) = true →
      decide (a ≤ c) = true := by
    intro a b c hab hbc
    simp only [decide_eq_true_eq] at hab hbc ⊢
    exact Int.le_trans hab hbc
  have htotal : ∀ a b : Int, (decide (a ≤ b) || decide (b ≤ a)) = true := by
    intro a b
    simp only [Bool.or_eq_true, decide_eq_true_eq]
    exact Int.le_total a b
  exact (List.pairwise_mergeSort htrans htotal numbers).imp of_decide_eq_true

theorem pairwise_occurrences (numbers : List Int) :
    (occurrences numbers).Pairwise (fun a b => a.1 < b.1) :=
  pairwise_foldr_addLeast (pairwise_mergeSort_le numbers)

/-- The entries are the numbers of the list with their counts. -/
theorem mem_occurrences_iff {numbers : List Int} {n : Int} {count : Nat} :
    (n, count) ∈ occurrences numbers ↔ n ∈ numbers ∧ count = numbers.count n := by
  have hperm := List.mergeSort_perm numbers (· ≤ ·)
  rw [occurrences, mem_foldr_addLeast_iff (pairwise_mergeSort_le numbers), hperm.mem_iff,
    hperm.count_eq]

end DiceNotation
