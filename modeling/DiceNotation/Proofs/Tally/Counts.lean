import DiceNotation.Tally
import Mathlib

/-!
# The counts of a tally

What a tally of scores says of them. Its entries are settled by the scores, so the counts of two
lists of scores in a row are those of the two tallies, added up score by score.
-/

namespace DiceNotation

theorem sum_addLeast (n : Int) (counts : List (Int × Nat)) :
    ((addLeast n counts).map (·.2)).sum = (counts.map (·.2)).sum + 1 := by
  fun_cases addLeast n counts <;> simp only [List.map_cons, List.map_nil, List.sum_cons,
    List.sum_nil] <;> omega

theorem sum_occurrences (numbers : List Int) :
    ((occurrences numbers).map (·.2)).sum = numbers.length := by
  have hfold : ∀ ascending : List Int,
      ((ascending.foldr addLeast []).map (·.2)).sum = ascending.length := by
    intro ascending
    induction ascending with
    | nil => rfl
    | cons n ascending ih => rw [List.foldr_cons, sum_addLeast, ih, List.length_cons]
  rw [occurrences, hfold, List.length_mergeSort]

namespace Tally

/-- The tally has just the scores of the list, in ascending order, each with the number of its
occurrences. -/
structure Tallies (tally : Tally) (scores : List Int) : Prop where
  ascending : tally.counts.Pairwise fun first second => first.1 < second.1
  entry : ∀ score count, (score, count) ∈ tally.counts ↔
    score ∈ scores ∧ count = scores.count score
  pos : ∀ score count, (score, count) ∈ tally.counts → 0 < count
  sum_counts : (tally.counts.map (·.2)).sum = scores.length
  samples : tally.samples = scores.length

/-- The entries of the whole are those of the two parts, with the counts of a score that both
have added up. -/
structure Joins (whole first second : Tally) : Prop where
  scores : ∀ score, score ∈ whole.scores ↔ score ∈ first.scores ∨ score ∈ second.scores
  counts : ∀ score, whole.countOf score = first.countOf score + second.countOf score
  samples : whole.samples = first.samples + second.samples

theorem tallies_ofScores (scores : List Int) : (ofScores scores).Tallies scores := by
  have hentry : ∀ score count, (score, count) ∈ (ofScores scores).counts ↔
      score ∈ scores ∧ count = scores.count score := by
    intro score count
    simp only [ofScores, List.mem_map, Prod.mk.injEq]
    constructor
    · rintro ⟨⟨_, times⟩, hmem, rfl, rfl⟩
      obtain ⟨hscore, rfl⟩ := mem_occurrences_iff.mp hmem
      exact ⟨hscore, rfl⟩
    · rintro ⟨hscore, rfl⟩
      exact ⟨_, mem_occurrences_iff.mpr ⟨hscore, rfl⟩, rfl, rfl⟩
  refine ⟨?_, hentry, ?_, ?_, rfl⟩
  · exact List.pairwise_map.mpr (pairwise_occurrences scores)
  · intro score count hmem
    obtain ⟨hscore, rfl⟩ := (hentry score count).mp hmem
    exact Int.natCast_pos.mpr (List.count_pos_iff.mpr hscore)
  · rw [← sum_occurrences scores, Nat.cast_list_sum, ofScores, List.map_map, List.map_map]
    rfl

variable {tally whole first second : Tally} {scores others : List Int}

theorem mem_scores_iff {score : Int} :
    score ∈ tally.scores ↔ ∃ count, (score, count) ∈ tally.counts := by
  simp [Tally.scores]

theorem Tallies.mem_scores (h : tally.Tallies scores) (score : Int) :
    score ∈ tally.scores ↔ score ∈ scores := by
  simp [mem_scores_iff, h.entry]

theorem countOf_of_not_mem {score : Int} (h : score ∉ tally.scores) : tally.countOf score = 0 := by
  have hnone : tally.counts.lookup score = none := by
    rw [List.lookup_eq_none_iff]
    intro entry hentry
    have hne : score ≠ entry.1 := fun heq => h (heq ▸ List.mem_map_of_mem hentry)
    simpa using hne
  rw [Tally.countOf, hnone]
  rfl

theorem mem_counts_of_mem_scores {score : Int} (h : score ∈ tally.scores) :
    (score, tally.countOf score) ∈ tally.counts := by
  rw [Tally.countOf]
  cases hlookup : tally.counts.lookup score with
  | none =>
    obtain ⟨count, hmem⟩ := mem_scores_iff.mp h
    simpa using List.lookup_eq_none_iff.mp hlookup _ hmem
  | some count =>
    obtain ⟨before, after, hcounts, -⟩ := List.lookup_eq_some_iff.mp hlookup
    simp [hcounts]

theorem Tallies.countOf (h : tally.Tallies scores) (score : Int) :
    tally.countOf score = scores.count score := by
  by_cases hscore : score ∈ tally.scores
  · exact ((h.entry score _).mp (mem_counts_of_mem_scores hscore)).2
  · rw [countOf_of_not_mem hscore, List.count_eq_zero.mpr (mt (h.mem_scores score).mpr hscore)]
    rfl

theorem Tallies.joins (hwhole : whole.Tallies (scores ++ others)) (hfirst : first.Tallies scores)
    (hsecond : second.Tallies others) : whole.Joins first second := by
  refine ⟨fun score => ?_, fun score => ?_, ?_⟩
  · rw [hwhole.mem_scores, hfirst.mem_scores, hsecond.mem_scores, List.mem_append]
  · rw [hwhole.countOf, hfirst.countOf, hsecond.countOf, List.count_append, Int.natCast_add]
  · rw [hwhole.samples, hfirst.samples, hsecond.samples, List.length_append, Int.natCast_add]

/-! ### The samples of the entries -/

/-- A tally as that of some samples is, whether it was made of them or is given by its entries:
there is a score, the scores ascend, each came up, and the counts add up to the samples. -/
structure IsConsistent (tally : Tally) : Prop where
  ne_nil : tally.counts ≠ []
  ascending : tally.counts.Pairwise fun first second => first.1 < second.1
  pos : ∀ score count, (score, count) ∈ tally.counts → 0 < count
  samples : tally.samples = (tally.counts.map (·.2)).sum

/-- The samples of the entries, each score as often as it was counted. -/
def expand (counts : List (Int × Int)) : List Int :=
  counts.flatMap fun entry => List.replicate entry.2.toNat entry.1

theorem expand_cons (score count : Int) (counts : List (Int × Int)) :
    expand ((score, count) :: counts) = List.replicate count.toNat score ++ expand counts := rfl

variable {counts : List (Int × Int)}

theorem exists_of_mem_expand {score : Int} (h : score ∈ expand counts) :
    ∃ count, (score, count) ∈ counts := by
  obtain ⟨⟨_, count⟩, hmem, hscore⟩ := List.mem_flatMap.mp h
  obtain rfl := List.eq_of_mem_replicate hscore
  exact ⟨count, hmem⟩

theorem length_expand (hpos : ∀ score count, (score, count) ∈ counts → 0 < count) :
    ((expand counts).length : Int) = (counts.map (·.2)).sum := by
  induction counts with
  | nil => rfl
  | cons entry counts ih =>
    obtain ⟨score, count⟩ := entry
    have hcount : 0 < count := hpos score count List.mem_cons_self
    have hrest := ih fun score count hmem => hpos score count (List.mem_cons_of_mem _ hmem)
    rw [expand_cons, List.length_append, List.length_replicate, List.map_cons, List.sum_cons,
      Nat.cast_add, hrest, Int.toNat_of_nonneg hcount.le]

theorem mem_iff_expand (hascending : counts.Pairwise fun first second => first.1 < second.1)
    (hpos : ∀ score count, (score, count) ∈ counts → 0 < count) (score count : Int) :
    (score, count) ∈ counts ↔
      score ∈ expand counts ∧ count = (expand counts).count score := by
  induction counts with
  | nil => simp [expand]
  | cons entry counts ih =>
    obtain ⟨least, times⟩ := entry
    obtain ⟨hleast, hascending⟩ := List.pairwise_cons.mp hascending
    have htimes : 0 < times := hpos least times List.mem_cons_self
    have hrest := ih hascending fun score count hmem =>
      hpos score count (List.mem_cons_of_mem _ hmem)
    have hgone : ∀ count, (least, count) ∉ counts := fun count hmem =>
      lt_irrefl least (hleast _ hmem)
    rw [expand_cons, List.mem_append, List.mem_replicate, List.count_append, List.count_replicate,
      List.mem_cons, Prod.mk.injEq]
    by_cases hscore : score = least
    · subst hscore
      have hnot : score ∉ expand counts := fun hmem => by
        obtain ⟨count, hmem⟩ := exists_of_mem_expand hmem
        exact hgone count hmem
      rw [List.count_eq_zero.mpr hnot]
      simp only [hgone, hnot, and_true, true_and, or_false, beq_self_eq_true, if_true,
        Nat.add_zero, ne_eq]
      omega
    · have hbeq : (least == score) = false := beq_false_of_ne (Ne.symm hscore)
      simp only [hscore, false_and, false_or, hbeq, Bool.false_eq_true, if_false, and_false,
        Nat.zero_add]
      exact hrest

theorem IsConsistent.tallies (h : tally.IsConsistent) : tally.Tallies (expand tally.counts) where
  ascending := h.ascending
  entry := mem_iff_expand h.ascending h.pos
  pos := h.pos
  sum_counts := (length_expand h.pos).symm
  samples := h.samples.trans (length_expand h.pos).symm

theorem IsConsistent.expand_ne_nil (h : tally.IsConsistent) : expand tally.counts ≠ [] := by
  obtain ⟨⟨score, count⟩, hmem⟩ := List.exists_mem_of_ne_nil _ h.ne_nil
  exact List.ne_nil_of_mem ((h.tallies.entry score count).mp hmem).1

/-- A tally of some scores is consistent. -/
theorem Tallies.isConsistent (h : tally.Tallies scores) (hscores : scores ≠ []) :
    tally.IsConsistent where
  ne_nil := by
    obtain ⟨score, hscore⟩ := List.exists_mem_of_ne_nil scores hscores
    exact List.ne_nil_of_mem ((h.entry score _).mpr ⟨hscore, rfl⟩)
  ascending := h.ascending
  pos := h.pos
  samples := h.samples.trans h.sum_counts.symm

/-- The samples of a tally are the scores that it counts, in ascending order. -/
theorem Tallies.perm_expand (h : tally.Tallies scores) : (expand tally.counts).Perm scores := by
  rw [List.perm_iff_count]
  intro score
  have hentry := h.entry score
  have hexpand := mem_iff_expand h.ascending h.pos score
  by_cases hmem : score ∈ scores
  · have := ((hexpand _).mp ((hentry _).mpr ⟨hmem, rfl⟩)).2
    omega
  · have hnot : score ∉ expand tally.counts := fun hexpanded =>
      hmem ((hentry _).mp ((hexpand _).mpr ⟨hexpanded, rfl⟩)).1
    rw [List.count_eq_zero.mpr hmem, List.count_eq_zero.mpr hnot]

end Tally

end DiceNotation
