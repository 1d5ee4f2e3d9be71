import DiceNotation.Proofs.Batch.Composition
import DiceNotation.Proofs.Tally.Shares

/-!
# Survival functions

The shares of a tally are its survival function: at each score stands the quotient of the samples
that are not below it and of all samples, rounded to the nearest number. The scores that did not
come up make no difference to those that did.
-/

namespace DiceNotation

namespace Tally

/-- How many samples are not below a score. -/
def reached (tally : Tally) (score : Int) : Int :=
  ((tally.counts.filter fun entry => score ≤ entry.1).map (·.2)).sum

/-- A score with its share of the samples. -/
def survival (tally : Tally) (score : Int) : Int × Binary64 :=
  (score, Binary64.ofQuotient (tally.reached score) tally.samples)

/-- Both lists of shares follow the samples that are not below a score, and they differ only in the
scores that they list. -/
structure Survives (tally : Tally) (least greatest : Int) : Prop where
  ascending : tally.scores.Pairwise (· < ·)
  between : ∀ score ∈ tally.scores, score ∈ Int.range least (greatest + 1)
  remainders : tally.remainders tally.scores =
    tally.scores.map fun score => (score, tally.reached score)
  remainders_range : tally.remainders (Int.range least (greatest + 1)) =
    (Int.range least (greatest + 1)).map fun score => (score, tally.reached score)
  atLeast : tally.atLeast = .ok (tally.scores.map tally.survival)
  filled : tally.filled = .ok ((Int.range least (greatest + 1)).map tally.survival)
  nearest : ∀ score ≤ greatest, ∃ mantissa exponent,
    (tally.survival score).2 = .finite false mantissa exponent ∧
      Binary64.IsNearest (tally.reached score / tally.samples) mantissa exponent
  reached_least : tally.reached least = tally.samples
  reached_antitone : ∀ first second, first ≤ second → tally.reached second ≤ tally.reached first
  reached_pos : ∀ score ≤ greatest, 0 < tally.reached score

variable {tally : Tally} {counts : List (Int × Int)} {scores : List Int}

theorem sum_filter_eq_reaching (hpos : ∀ score count, (score, count) ∈ counts → 0 < count)
    (score : Int) :
    ((counts.filter fun entry => score ≤ entry.1).map (·.2)).sum =
      reaching (expand counts) score := by
  induction counts with
  | nil => rfl
  | cons entry counts ih =>
    obtain ⟨first, count⟩ := entry
    have hcount : 0 < count := hpos first count List.mem_cons_self
    have hrest := ih fun score count hmem => hpos score count (List.mem_cons_of_mem _ hmem)
    rw [reaching] at hrest ⊢
    rw [expand_cons, List.countP_append, List.countP_replicate, Nat.cast_add, ← hrest,
      List.filter_cons]
    simp only [decide_eq_true_eq]
    split
    · rw [List.map_cons, List.sum_cons, Int.toNat_of_nonneg hcount.le]
    · rw [Nat.cast_zero, zero_add]

theorem Tallies.reached_eq (h : tally.Tallies scores) (score : Int) :
    tally.reached score = reaching scores score := by
  rw [reached, sum_filter_eq_reaching h.pos, reaching, h.perm_expand.countP_eq]
  rfl

theorem Tallies.survival_eq (h : tally.Tallies scores) :
    tally.survival = fun score =>
      (score, Binary64.ofQuotient (reaching scores score) tally.samples) := by
  funext score
  rw [survival, h.reached_eq]

theorem Tallies.survives (h : tally.Tallies scores) (hscores : scores ≠ []) :
    ∃ least greatest, tally.Spans least greatest ∧ tally.Survives least greatest := by
  obtain ⟨least, greatest, hspans, -, hgreatest, hbetween⟩ := h.exists_spans hscores
  have hascending : tally.scores.Pairwise (· < ·) := List.pairwise_map.mpr h.ascending
  have hpos : ∀ score ≤ greatest, 0 < reaching scores score := fun score hle =>
    List.countP_pos_iff.mpr ⟨greatest, hgreatest, by simpa using hle⟩
  exact ⟨least, greatest, hspans,
    { ascending := hascending
      between := fun score hscore => hspans.mem_range hscore
      remainders := by
        simp only [h.reached_eq]
        exact h.remainders_eq hascending fun score => (h.mem_scores score).mpr
      remainders_range := by
        simp only [h.reached_eq]
        exact h.remainders_eq (pairwise_range _ _) fun score hscore =>
          hspans.mem_range ((h.mem_scores score).mpr hscore)
      atLeast := by
        rw [h.survival_eq]
        exact h.atLeast_eq hscores
      filled := by
        rw [h.survival_eq]
        exact h.filled_eq hscores hspans
      nearest := by
        intro score hle
        rw [survival, h.reached_eq, h.samples]
        dsimp only
        exact Binary64.exists_ofQuotient_eq (Int.natCast_pos.mpr (hpos score hle))
          (Int.ofNat_le.mpr (reaching_le_length scores score))
      reached_least := by
        rw [h.reached_eq, h.samples, reaching, List.countP_eq_length.mpr]
        simpa using fun score hscore => (hbetween score hscore).1
      reached_antitone := by
        intro first second hle
        rw [h.reached_eq, h.reached_eq]
        exact Int.ofNat_le.mpr (reaching_antitone scores hle)
      reached_pos := by
        intro score hle
        rw [h.reached_eq]
        exact Int.natCast_pos.mpr (hpos score hle) }⟩

/-- A tally that is rolled has samples, and those that are not below a score are the values that
score at least as much. -/
theorem exists_reached_of_sample {σ : Type} [Source σ] {limits : Limits} {tree : Expression}
    {n : Int} {source after : σ} (h : tree.sample limits n source = .ok tally after) :
    ∃ values, tree.run limits n source = .ok values after ∧ tally.IsConsistent ∧
      ∀ score, tally.reached score = (values.countP (score ≤ ·.score) : Nat) := by
  have hn : 1 ≤ n := by
    by_contra hfew
    rw [Expression.sample, if_pos (by omega)] at h
    cases h
  obtain ⟨values, hvalues, htallies⟩ := Expression.tallies_of_sample hn h
  have hscores : values.map Value.score ≠ [] := by
    simpa using Expression.ne_nil_of_run hn hvalues
  refine ⟨values, hvalues, htallies.isConsistent hscores, fun score => ?_⟩
  rw [htallies.reached_eq, reaching, List.countP_map]
  rfl

/-- The shares of a consistent tally, with and without the scores that did not come up, are its
survival function. Every tally that is rolled is consistent. -/
theorem atLeast_survives :
    (∀ tally : Tally, tally.IsConsistent →
      ∃ least greatest, tally.Spans least greatest ∧ tally.Survives least greatest) ∧
    ∀ {σ : Type} [Source σ] {limits : Limits} {tree : Expression} {n : Int} {source after : σ}
      {tally : Tally}, tree.sample limits n source = .ok tally after →
        ∃ values, tree.run limits n source = .ok values after ∧ tally.IsConsistent ∧
          ∀ score, tally.reached score = (values.countP (score ≤ ·.score) : Nat) :=
  ⟨fun _ h => h.tallies.survives h.expand_ne_nil, exists_reached_of_sample⟩

theorem atLeast_survives_gap :
    IsConsistent ⟨[(3, 2), (5, 2)], 4⟩ ∧
      atLeast ⟨[(3, 2), (5, 2)], 4⟩ =
        .ok [(3, .finite false (2 ^ 52) (-52)), (5, .finite false (2 ^ 52) (-53))] ∧
      filled ⟨[(3, 2), (5, 2)], 4⟩ =
        .ok [(3, .finite false (2 ^ 52) (-52)), (4, .finite false (2 ^ 52) (-53)),
          (5, .finite false (2 ^ 52) (-53))] ∧
      ∃ tally after, Expression.sample {} (.pool ⟨1, 6, none, none⟩) 3
          (Replay.ofList [4, 2, 4]) = .ok tally after ∧
        tally.IsConsistent ∧ tally.reached 3 = 2 := by
  have hconsistent : IsConsistent ⟨[(3, 2), (5, 2)], 4⟩ :=
    ⟨by decide, by simp, by simp; omega, rfl⟩
  obtain ⟨least, greatest, hspans, hsurvives⟩ := atLeast_survives.1 _ hconsistent
  cases hspans.minimum
  cases hspans.maximum
  have hsample : Expression.sample {} (.pool ⟨1, 6, none, none⟩) 3 (Replay.ofList [4, 2, 4]) =
      .ok ⟨[(2, 1), (4, 2)], 3⟩ ⟨3, []⟩ := by
    cbv
  obtain ⟨values, -, hrolled, -⟩ := atLeast_survives.2 hsample
  exact ⟨hconsistent, hsurvives.atLeast.trans (by decide), hsurvives.filled.trans (by decide), _, _,
    hsample, hrolled, rfl⟩

end Tally

end DiceNotation
