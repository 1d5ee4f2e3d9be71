import DiceNotation.Proofs.Binary64.Rounding
import DiceNotation.Proofs.Fault.Results
import DiceNotation.Proofs.Tally.Counts

/-!
# Shares of a tally

What remains at a score is the number of scores that are not below it, whether the scores are passed
over one by one or only those that came up. It is at most all of them, so no share is too large for
its format, and a tally of some scores has all shares.
-/

namespace DiceNotation

namespace Tally

/-- How many of the scores are not below a score. -/
def reaching (scores : List Int) (score : Int) : Nat := scores.countP (score ≤ ·)

theorem reaching_le_length (scores : List Int) (score : Int) :
    reaching scores score ≤ scores.length :=
  List.countP_le_length

theorem reaching_succ (scores : List Int) (score : Int) :
    (reaching scores score : Int) - scores.count score = reaching scores (score + 1) := by
  unfold reaching
  induction scores with
  | nil => rfl
  | cons first scores ih =>
    rw [List.countP_cons, List.countP_cons, List.count_cons]
    simp only [decide_eq_true_eq, beq_iff_eq]
    split_ifs <;> omega

theorem reaching_congr {scores : List Int} {score other : Int}
    (h : ∀ n ∈ scores, score ≤ n ↔ other ≤ n) : reaching scores score = reaching scores other :=
  List.countP_congr fun n hn => by simpa using h n hn

theorem reaching_antitone (scores : List Int) {score other : Int} (h : score ≤ other) :
    reaching scores other ≤ reaching scores score :=
  List.countP_mono_left fun n _ hn => by
    simp only [decide_eq_true_eq] at hn ⊢
    omega

variable {tally : Tally} {scores list : List Int}

/-- What remains at each of some ascending scores is what reaches it, if none is left out. -/
theorem Tallies.remaindersFrom_eq (h : tally.Tallies scores) {bound : Int}
    (hascending : list.Pairwise (· < ·)) (hbound : ∀ score ∈ list, bound ≤ score)
    (hall : ∀ score ∈ scores, bound ≤ score → score ∈ list) :
    tally.remaindersFrom (reaching scores bound) list =
      list.map fun score => (score, (reaching scores score : Int)) := by
  induction list generalizing bound with
  | nil => rfl
  | cons first list ih =>
    obtain ⟨hfirst, hascending⟩ := List.pairwise_cons.mp hascending
    have hsame : reaching scores bound = reaching scores first := by
      refine reaching_congr fun score hscore => ⟨fun hle => ?_, (hbound first List.mem_cons_self).trans⟩
      obtain rfl | hmem := List.mem_cons.mp (hall score hscore hle)
      · exact le_rfl
      · exact (hfirst score hmem).le
    rw [remaindersFrom_cons, h.countOf, hsame, reaching_succ, List.map_cons]
    congr 1
    refine ih hascending (fun score hscore => hfirst score hscore) fun score hscore hlt => ?_
    have hle : bound ≤ score := (hbound first List.mem_cons_self).trans (by omega)
    exact (List.mem_cons.mp (hall score hscore hle)).resolve_left (by omega)

theorem Tallies.remainders_eq (h : tally.Tallies scores) (hascending : list.Pairwise (· < ·))
    (hall : ∀ score ∈ scores, score ∈ list) :
    tally.remainders list = list.map fun score => (score, (reaching scores score : Int)) := by
  cases list with
  | nil => rfl
  | cons first list =>
    obtain ⟨hfirst, -⟩ := List.pairwise_cons.mp hascending
    have hbound : ∀ score ∈ first :: list, first ≤ score :=
      List.forall_mem_cons.mpr ⟨le_rfl, fun score hscore => (hfirst score hscore).le⟩
    have hsamples : tally.samples = (reaching scores first : Int) := by
      rw [h.samples, reaching, List.countP_eq_length.mpr]
      simpa using fun score hscore => hbound score (hall score hscore)
    rw [remainders, hsamples]
    exact h.remaindersFrom_eq hascending hbound fun score hscore _ => hall score hscore

theorem Tallies.share_eq (h : tally.Tallies scores) (hscores : scores ≠ []) (score : Int) :
    tally.share (reaching scores score) =
      .ok (Binary64.ofQuotient (reaching scores score) tally.samples) := by
  have hsamples : tally.samples ≠ 0 := by
    rw [h.samples]
    simpa using hscores
  rw [share, if_neg hsamples, h.samples]
  have hfinite := Binary64.ofRatio_ne_infinite (reaching_le_length scores score)
  split
  next negative hinfinite => exact absurd hinfinite (hfinite _ negative)
  next => rfl

/-- The share at a score is that of the samples which reach it. -/
theorem Tallies.sharesOf_eq (h : tally.Tallies scores) (hscores : scores ≠ [])
    (hascending : list.Pairwise (· < ·)) (hall : ∀ score ∈ scores, score ∈ list) :
    tally.sharesOf list = .ok (list.map fun score =>
      (score, Binary64.ofQuotient (reaching scores score) tally.samples)) := by
  have hshares : (list.map fun score => (score, (reaching scores score : Int))).mapM tally.shareAt =
      .ok ((list.map fun score => (score, (reaching scores score : Int))).map fun entry =>
        (entry.1, Binary64.ofQuotient entry.2 tally.samples)) := by
    refine Results.mapM_of_forall fun entry hentry => ?_
    obtain ⟨score, -, rfl⟩ := List.mem_map.mp hentry
    rw [shareAt, h.share_eq hscores]
    rfl
  rw [sharesOf, h.remainders_eq hascending hall, hshares, List.map_map]
  rfl

theorem scores_of_remaindersFrom (tally : Tally) (samples : Int) (list : List Int) :
    (tally.remaindersFrom samples list).map (·.1) = list := by
  induction list generalizing samples with
  | nil => rfl
  | cons score list ih => rw [remaindersFrom_cons, List.map_cons, ih]

theorem scores_of_sharesOf {shares : List (Int × Binary64)} (h : tally.sharesOf list = .ok shares) :
    shares.map (·.1) = list := by
  have hsame : List.Forall₂ (fun entry share => share.1 = entry.1) (tally.remainders list) shares :=
    (Results.mapM_eq_ok_iff.mp h).imp fun entry share hshare => by
      obtain ⟨_, -, rfl⟩ := Results.map_eq_ok_iff.mp hshare
      rfl
  rw [← scores_of_remaindersFrom tally tally.samples list, ← remainders, ← List.forall₂_eq_eq_eq,
    List.forall₂_map_left_iff, List.forall₂_map_right_iff]
  exact hsame.flip

/-! ### The range -/

/-- The least and the greatest score. -/
structure Spans (tally : Tally) (least greatest : Int) : Prop where
  minimum : tally.minimum = .ok least
  maximum : tally.maximum = .ok greatest

theorem Spans.between {least greatest : Int} (h : tally.Spans least greatest) :
    least ∈ tally.scores ∧ greatest ∈ tally.scores ∧
      ∀ score ∈ tally.scores, least ≤ score ∧ score ≤ greatest := by
  obtain ⟨hminimum, hmaximum⟩ := h
  unfold Tally.minimum at hminimum
  unfold Tally.maximum at hmaximum
  split at hminimum
  next hleast =>
    split at hmaximum
    next hgreatest =>
      cases hminimum
      cases hmaximum
      obtain ⟨hleast, hlow⟩ := List.min?_eq_some_iff.mp hleast
      obtain ⟨hgreatest, hhigh⟩ := List.max?_eq_some_iff.mp hgreatest
      exact ⟨hleast, hgreatest, fun score hscore => ⟨hlow score hscore, hhigh score hscore⟩⟩
    next => cases hmaximum
  next => cases hminimum

theorem Spans.mem_range {least greatest score : Int} (h : tally.Spans least greatest)
    (hscore : score ∈ tally.scores) : score ∈ Int.range least (greatest + 1) := by
  obtain ⟨hlow, hhigh⟩ := h.between.2.2 score hscore
  exact Int.mem_range_iff.mpr ⟨hlow, by omega⟩

theorem Tallies.exists_spans (h : tally.Tallies scores) (hscores : scores ≠ []) :
    ∃ least greatest, tally.Spans least greatest ∧ least ∈ scores ∧ greatest ∈ scores ∧
      ∀ score ∈ scores, least ≤ score ∧ score ≤ greatest := by
  obtain ⟨score, hscore⟩ := List.exists_mem_of_ne_nil scores hscores
  have hne : tally.scores ≠ [] := List.ne_nil_of_mem ((h.mem_scores score).mpr hscore)
  obtain ⟨least, hleast⟩ := Option.ne_none_iff_exists'.mp (mt List.min?_eq_none_iff.mp hne)
  obtain ⟨greatest, hgreatest⟩ := Option.ne_none_iff_exists'.mp (mt List.max?_eq_none_iff.mp hne)
  have hspans : tally.Spans least greatest :=
    ⟨by rw [minimum, hleast], by rw [maximum, hgreatest]⟩
  refine ⟨least, greatest, hspans, ?_⟩
  simpa only [h.mem_scores] using hspans.between

theorem Spans.range_eq {least greatest : Int} (h : tally.Spans least greatest) :
    tally.range = .ok (Int.range least (greatest + 1)) := by
  rw [range, h.minimum, h.maximum]
  rfl

/-- Only a tally with scores has shares at all scores of a range. -/
theorem exists_spans_of_filled {shares : List (Int × Binary64)} (h : tally.filled = .ok shares) :
    ∃ least greatest, tally.Spans least greatest ∧
      shares.map (·.1) = Int.range least (greatest + 1) := by
  rw [filled_eq_sharesOf, range] at h
  cases hminimum : tally.minimum with
  | error fault =>
    rw [hminimum] at h
    cases h
  | ok least =>
    cases hmaximum : tally.maximum with
    | error fault =>
      rw [hminimum, hmaximum] at h
      cases h
    | ok greatest =>
      rw [hminimum, hmaximum] at h
      exact ⟨least, greatest, ⟨hminimum, hmaximum⟩, scores_of_sharesOf h⟩

theorem pairwise_range (least greatest : Int) : (Int.range least greatest).Pairwise (· < ·) := by
  rw [Int.range, List.pairwise_map]
  exact List.pairwise_lt_range.imp fun hlt => by omega

theorem Tallies.atLeast_eq (h : tally.Tallies scores) (hscores : scores ≠ []) :
    tally.atLeast = .ok (tally.scores.map fun score =>
      (score, Binary64.ofQuotient (reaching scores score) tally.samples)) :=
  h.sharesOf_eq hscores (List.pairwise_map.mpr h.ascending) fun score hscore =>
    (h.mem_scores score).mpr hscore

/-- Every score of the range has a share, and there are no others. -/
theorem Tallies.filled_eq (h : tally.Tallies scores) (hscores : scores ≠ [])
    {least greatest : Int} (hspans : tally.Spans least greatest) :
    tally.filled = .ok ((Int.range least (greatest + 1)).map fun score =>
      (score, Binary64.ofQuotient (reaching scores score) tally.samples)) := by
  rw [filled_eq_sharesOf, hspans.range_eq]
  exact h.sharesOf_eq hscores (pairwise_range least (greatest + 1)) fun score hscore =>
    hspans.mem_range ((h.mem_scores score).mpr hscore)

end Tally

end DiceNotation
