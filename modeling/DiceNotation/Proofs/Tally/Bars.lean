import DiceNotation.Proofs.Numeral.Plain
import DiceNotation.Proofs.Tally.Chart
import DiceNotation.Proofs.Tally.Survival

/-!
# The lines of a chart

A chart that is drawn has a line for each score from the least to the greatest one, and just the
scores that came up have a bar. A larger count has no shorter bar, but the longest bar may come out
longer than the width by up to its whole length, since what is left of the largest count when it is
divided among the stars of the width goes to stars of its own.
-/

namespace DiceNotation.Tally

variable {tally : Tally} {width : Int} {text : Text}

theorem countOf_nonneg (hpos : ∀ score count, (score, count) ∈ tally.counts → 0 < count)
    (score : Int) : 0 ≤ tally.countOf score := by
  by_cases hscore : score ∈ tally.scores
  · exact (hpos _ _ (mem_counts_of_mem_scores hscore)).le
  · exact (countOf_of_not_mem hscore).ge

theorem countOf_pos_iff (hpos : ∀ score count, (score, count) ∈ tally.counts → 0 < count)
    (score : Int) : 0 < tally.countOf score ↔ score ∈ tally.scores := by
  constructor
  · intro hcount
    by_contra hscore
    rw [countOf_of_not_mem hscore] at hcount
    exact lt_irrefl 0 hcount
  · exact fun hscore => hpos _ _ (mem_counts_of_mem_scores hscore)

theorem countOf_of_mem (hscores : tally.scores.Nodup) {score count : Int}
    (h : (score, count) ∈ tally.counts) : tally.countOf score = count := by
  have hmem := mem_counts_of_mem_scores (mem_scores_iff.mpr ⟨count, h⟩)
  exact congrArg Prod.snd (List.inj_on_of_nodup_map hscores hmem h rfl)

theorem IsConsistent.nodup (h : tally.IsConsistent) : tally.scores.Nodup :=
  (List.pairwise_map.mpr h.ascending).imp fun hlt => hlt.ne

/-! ### Lines -/

theorem chart_eq (tally : Tally) (width : Int) :
    tally.chart width = (fun rows => Text.lines (rows.map (·.2))) <$> tally.chartRows width := by
  rw [chart]
  cases tally.chartRows width <;> rfl

theorem exists_of_chartRows {rows : List (Int × Text)} (h : tally.chartRows width = .ok rows) :
    ∃ most shares, tally.maxCount = .ok most ∧ tally.filled = .ok shares ∧
      List.Forall₂ (fun share row =>
        tally.chartRow (starSize width most) share.1 share.2 = .ok row.2) shares rows := by
  cases hmost : tally.maxCount with
  | error fault =>
    rw [chartRows, hmost] at h
    cases h
  | ok most =>
    cases hshares : tally.filled with
    | error fault =>
      rw [chartRows, hmost, hshares] at h
      cases h
    | ok shares =>
      rw [chartRows_eq hmost hshares, Results.mapM_eq_ok_iff] at h
      refine ⟨most, shares, rfl, rfl, h.imp fun share row hrow => ?_⟩
      obtain ⟨text, htext, rfl⟩ := Results.map_eq_ok_iff.mp hrow
      exact htext

/-- The lines of a chart that is drawn, none of which has too long a bar. -/
theorem lines_of_chart (hcounts : ∀ score, 0 ≤ tally.countOf score)
    (h : tally.chart width = .ok text) :
    ∃ least greatest most shares, tally.Spans least greatest ∧ tally.maxCount = .ok most ∧
      tally.filled = .ok shares ∧ shares.map (·.1) = Int.range least (greatest + 1) ∧
      (text.splitOn '\n' = shares.map fun share =>
        rowText share.1 share.2 (starsOf (starSize width most) (tally.countOf share.1))) ∧
      ∀ share ∈ shares, barLength (starSize width most) (tally.countOf share.1) < indexLimit := by
  rw [chart_eq, Results.map_eq_ok_iff] at h
  obtain ⟨rows, hrows, rfl⟩ := h
  obtain ⟨most, shares, hmost, hshares, hresults⟩ := exists_of_chartRows hrows
  obtain ⟨least, greatest, hspans, hscores⟩ := exists_spans_of_filled hshares
  have hdrawn : List.Forall₂ (fun share row =>
      barLength (starSize width most) (tally.countOf share.1) < indexLimit ∧
        rowText share.1 share.2 (starsOf (starSize width most) (tally.countOf share.1)) = row.2)
      shares rows := by
    -- a row that could not be written would have left the chart undrawn
    refine hresults.imp fun share row hrow => ?_
    obtain ⟨-, hfault⟩ | ⟨-, -, hfault⟩ | ⟨-, hshort, hshown⟩ :=
      chartRow_cases (starSize_pos width most) (hcounts share.1) share.2
    · cases hrow.symm.trans hfault
    · cases hrow.symm.trans hfault
    · exact ⟨hshort, Except.ok.inj (hshown.symm.trans hrow)⟩
  obtain ⟨hshort, hdrawn⟩ := (List.forall₂_and_left shares rows).mp hdrawn
  have htexts : (shares.map fun share => rowText share.1 share.2
      (starsOf (starSize width most) (tally.countOf share.1))) = rows.map (·.2) := by
    rw [← List.forall₂_eq_eq_eq, List.forall₂_map_left_iff, List.forall₂_map_right_iff]
    exact hdrawn
  have hne : shares ≠ [] := by
    rintro rfl
    have hleast := hspans.mem_range hspans.between.1
    rw [← hscores] at hleast
    cases hleast
  refine ⟨least, greatest, most, shares, hspans, hmost, hshares, hscores, ?_, hshort⟩
  rw [← htexts, Text.splitOn_lines (by simpa using hne)]
  intro line hline
  obtain ⟨share, -, rfl⟩ := List.mem_map.mp hline
  exact isLine_rowText _ _ _

/-! ### The longest bar -/

theorem barLength_mono {size first second : Int} (hsize : 1 ≤ size) (h : first ≤ second) :
    barLength size first ≤ barLength size second := by
  rw [barLength, barLength, Int.fdiv_eq_ediv_of_nonneg _ (by omega),
    Int.fdiv_eq_ediv_of_nonneg _ (by omega)]
  have := Int.ediv_le_ediv (show 0 < size by omega) h
  omega

theorem starsOf_pos_iff {size count : Int} (hsize : 1 ≤ size) (hcount : 0 ≤ count) :
    0 < starsOf size count ↔ 0 < count := by
  have hpos := barLength_pos hsize hcount
  unfold starsOf
  split <;> omega

theorem starsOf_of_pos {size count : Int} (hsize : 1 ≤ size) (hcount : 0 < count) :
    (starsOf size count : Int) = barLength size count := by
  have hpos := barLength_pos hsize hcount.le
  rw [starsOf, if_neg hcount.ne', Int.toNat_of_nonneg (by omega)]

theorem starsOf_le {size count most : Int} (hsize : 1 ≤ size) (hcount : 0 ≤ count)
    (h : count ≤ most) : (starsOf size count : Int) ≤ barLength size most := by
  obtain rfl | hpos := hcount.eq_or_lt
  · exact (barLength_pos hsize h).trans' (by rw [starsOf, if_pos rfl]; decide)
  · rw [starsOf_of_pos hsize hpos]
    exact barLength_mono hsize h

theorem starsOf_mono {size first second : Int} (hsize : 1 ≤ size) (hfirst : 0 < first)
    (h : first ≤ second) : starsOf size first ≤ starsOf size second := by
  have hmono := barLength_mono hsize h
  rw [← starsOf_of_pos hsize hfirst, ← starsOf_of_pos hsize (by omega)] at hmono
  exact Int.ofNat_le.mp hmono

/-- The longest bar has a star for each whole share of the width, one more, and those that what is
left of the largest count still fills. -/
theorem barLength_longest {most : Int} (hwidth : 1 ≤ width) (hmost : width ≤ most) :
    barLength (starSize width most) most = width + 1 + most % width / (most / width) := by
  have hpos : 1 ≤ most / width := (Int.le_ediv_iff_mul_le (by omega)).mpr (by omega)
  have hsize : starSize width most = most / width := by
    rw [starSize, max_eq_left hwidth, Int.fdiv_eq_ediv_of_nonneg _ (by omega), max_eq_right hpos]
  rw [barLength, hsize, Int.fdiv_eq_ediv_of_nonneg _ (by omega)]
  have hsplit := Int.mul_ediv_add_emod most width
  have hdivide : most / (most / width) = width + most % width / (most / width) := by
    nth_rewrite 1 [← hsplit]
    rw [Int.add_comm, Int.add_mul_ediv_right _ _ (by omega), Int.add_comm]
  omega

theorem barLength_longest_le_iff {most : Int} (hwidth : 1 ≤ width) (hmost : 1 ≤ most) :
    barLength (starSize width most) most ≤ width + 1 ↔
      most < width ∨ most % width < most / width := by
  obtain hlt | hle := lt_or_ge most width
  · have hsize : starSize width most = 1 := by
      rw [starSize, max_eq_left hwidth, Int.fdiv_eq_ediv_of_nonneg _ (by omega),
        Int.ediv_eq_zero_of_lt (by omega) hlt]
      rfl
    rw [hsize, barLength, Int.fdiv_one]
    omega
  · have hpos : 1 ≤ most / width := (Int.le_ediv_iff_mul_le (by omega)).mpr (by omega)
    have hrest := Int.emod_nonneg most (show width ≠ 0 by omega)
    rw [barLength_longest hwidth hle]
    have hnone : most % width / (most / width) ≤ 0 ↔ most % width < most / width := by
      rw [← Int.lt_add_one_iff, zero_add, Int.ediv_lt_iff_lt_mul (by omega), one_mul]
    omega

/-! ### Drawn charts -/

/-- A line for each score from the least to the greatest one, in ascending order: just the scores
that came up have stars, and a larger count has no fewer of them. -/
structure DrawsEach (tally : Tally) (least greatest : Int) (stars : Int → Nat) (text : Text) :
    Prop where
  lines : text.splitOn '\n' = (Int.range least (greatest + 1)).map fun score =>
    rowText score (tally.survival score).2 (stars score)
  length : ((text.splitOn '\n').length : Int) = greatest - least + 1
  observed : ∀ score, 0 < stars score ↔ score ∈ tally.scores
  monotone : ∀ first ∈ tally.scores, ∀ second ∈ tally.scores,
    tally.countOf first ≤ tally.countOf second → stars first ≤ stars second

theorem IsConsistent.drawsEach (h : tally.IsConsistent) {least greatest most : Int}
    (hspans : tally.Spans least greatest) (hmost : tally.maxCount = .ok most)
    (htext : tally.chart width = .ok text) :
    tally.DrawsEach least greatest
        (fun score => starsOf (starSize width most) (tally.countOf score)) text ∧
      barLength (starSize width most) most < indexLimit := by
  have hcounts := countOf_nonneg h.pos
  have hsize := starSize_pos width most
  obtain ⟨_, _, _, shares, hspans', hmost', hshares, hscores, hlines, hshort⟩ :=
    lines_of_chart hcounts htext
  cases hspans.minimum.symm.trans hspans'.minimum
  cases hspans.maximum.symm.trans hspans'.maximum
  cases hmost.symm.trans hmost'
  obtain ⟨_, _, hspans'', hsurvives⟩ := h.tallies.survives h.expand_ne_nil
  cases hspans.minimum.symm.trans hspans''.minimum
  cases hspans.maximum.symm.trans hspans''.maximum
  cases hshares.symm.trans hsurvives.filled
  have hlines : text.splitOn '\n' = (Int.range least (greatest + 1)).map fun score =>
      rowText score (tally.survival score).2
        (starsOf (starSize width most) (tally.countOf score)) := by
    rw [hlines, List.map_map]
    rfl
  -- the bar of the largest count is one of those that were short enough
  refine ⟨⟨hlines, ?_, fun score => ?_, fun first hfirst second hsecond hle => ?_⟩, ?_⟩
  · have := hspans.between.2.2 greatest hspans.between.2.1
    rw [hlines, List.length_map, Int.range, List.length_map, List.length_range]
    omega
  · rw [starsOf_pos_iff hsize (hcounts score), countOf_pos_iff h.pos]
  · exact starsOf_mono hsize ((countOf_pos_iff h.pos first).mpr hfirst) hle
  · obtain ⟨⟨score, hscore⟩, -⟩ := maxCount_spec hmost
    have hmem : tally.survival score ∈ (Int.range least (greatest + 1)).map tally.survival :=
      List.mem_map_of_mem (hsurvives.between score (mem_scores_iff.mpr ⟨most, hscore⟩))
    have hlongest := hshort _ hmem
    rwa [survival, countOf_of_mem h.nodup hscore] at hlongest

/-- A chart of scores that can be written fails by its longest bar. -/
theorem IsConsistent.chart_eq_error (h : tally.IsConsistent)
    (hfits : ∀ score ∈ tally.scores, Numeral.fits score = true) {most : Int}
    (hmost : tally.maxCount = .ok most) {fault : Fault} (hchart : tally.chart width = .error fault) :
    fault = .tally .hugeBar ∧ indexLimit ≤ barLength (starSize width most) most := by
  have hsize := starSize_pos width most
  obtain ⟨_, hmost', -, hcounts⟩ := h.tallies.exists_maxCount h.expand_ne_nil
  cases hmost.symm.trans hmost'
  obtain ⟨least, greatest, hspans, -⟩ := h.tallies.exists_spans h.expand_ne_nil
  obtain ⟨hleast, hgreatest, -⟩ := hspans.between
  rw [chart_eq, Results.map_eq_error_iff, h.tallies.chartRows_eq h.expand_ne_nil hspans hmost]
    at hchart
  obtain ⟨score, hscore, hrow⟩ := Results.exists_of_mapM_eq_error hchart
  rw [Results.map_eq_error_iff] at hrow
  obtain ⟨hlong, -⟩ | ⟨-, hlong, hfault⟩ | ⟨-, -, hshown⟩ :=
    chartRow_cases hsize (hcounts score).1 _
  · obtain ⟨hle, hlt⟩ := Int.mem_range_iff.mp hscore
    have := Numeral.fits_of_between (hfits least hleast) (hfits greatest hgreatest) hle (by omega)
    cases hlong.symm.trans this
  · cases hrow.symm.trans hfault
    exact ⟨rfl, hlong.trans (barLength_mono hsize (hcounts score).2)⟩
  · cases hrow.symm.trans hshown

/-- The chart of a consistent tally has a faithful line for each score of its range, or else its
longest bar has more stars than a number of 64 bits counts. -/
theorem chart_draws_each (h : tally.IsConsistent)
    (hfits : ∀ score ∈ tally.scores, Numeral.fits score = true) (width : Int) :
    ∃ least greatest most, tally.Spans least greatest ∧ tally.maxCount = .ok most ∧
      (barLength (starSize width most) most < indexLimit →
        ∃ text stars, tally.chart width = .ok text ∧ tally.DrawsEach least greatest stars text) ∧
      (indexLimit ≤ barLength (starSize width most) most →
        tally.chart width = .error (.tally .hugeBar)) ∧
      (2 * width < indexLimit ∨ tally.samples + 1 < indexLimit →
        barLength (starSize width most) most < indexLimit) := by
  obtain ⟨least, greatest, hspans, -⟩ := h.tallies.exists_spans h.expand_ne_nil
  obtain ⟨most, hmost, hsamples, -⟩ := h.tallies.exists_maxCount h.expand_ne_nil
  refine ⟨least, greatest, most, hspans, hmost, fun hshort => ?_, fun hlong => ?_, fun hsmall => ?_⟩
  · cases htext : tally.chart width with
    | ok text => exact ⟨text, _, rfl, (h.drawsEach hspans hmost htext).1⟩
    | error fault =>
      have := (h.chart_eq_error hfits hmost htext).2
      omega
  · cases htext : tally.chart width with
    | ok text =>
      have := (h.drawsEach hspans hmost htext).2
      omega
    | error fault =>
      obtain ⟨rfl, -⟩ := h.chart_eq_error hfits hmost htext
      rfl
  · by_contra hlong
    have := indexLimit_le (le_refl most) (not_lt.mp hlong)
    omega

theorem chart_draws_each_gap :
    IsConsistent ⟨[(1, 1), (2, 2), (4, 1)], 4⟩ ∧
      (∀ score ∈ scores ⟨[(1, 1), (2, 2), (4, 1)], 4⟩, Numeral.fits score = true) ∧
      ∃ text stars, chart ⟨[(1, 1), (2, 2), (4, 1)], 4⟩ (-1) = .ok text ∧
        DrawsEach ⟨[(1, 1), (2, 2), (4, 1)], 4⟩ 1 4 stars text := by
  have hconsistent : IsConsistent ⟨[(1, 1), (2, 2), (4, 1)], 4⟩ :=
    ⟨by decide, by simp, by simp; omega, rfl⟩
  have hfits : ∀ score ∈ scores ⟨[(1, 1), (2, 2), (4, 1)], 4⟩, Numeral.fits score = true :=
    fun score hscore => Numeral.fits_of_lt 1 (by decide) (by revert score; decide)
  obtain ⟨least, greatest, most, hspans, hmost, hdraws, -, hsmall⟩ :=
    chart_draws_each hconsistent hfits (-1)
  cases hspans.minimum
  cases hspans.maximum
  exact ⟨hconsistent, hfits, hdraws (hsmall (.inl (by decide)))⟩

/-- As long a bar as the width asks for may be longer than any text. -/
theorem chart_too_long :
    IsConsistent ⟨[(1, 2 ^ 63)], 2 ^ 63⟩ ∧
      (∀ score ∈ scores ⟨[(1, 2 ^ 63)], 2 ^ 63⟩, Numeral.fits score = true) ∧
      chart ⟨[(1, 2 ^ 63)], 2 ^ 63⟩ (2 ^ 63) = .error (.tally .hugeBar) := by
  refine ⟨⟨by decide, by simp, by simp, rfl⟩, fun score hscore => ?_, by decide +kernel⟩
  exact Numeral.fits_of_lt 1 (by decide) (by revert score; decide)

/-! ### Bars and the width -/

/-- The largest count has the longest bar. -/
theorem exists_longest_line (hpos : ∀ score count, (score, count) ∈ tally.counts → 0 < count)
    (hscores : tally.scores.Nodup) (h : tally.chart width = .ok text) :
    ∃ most, tally.maxCount = .ok most ∧ 1 ≤ most ∧
      (∀ line ∈ text.splitOn '\n',
        (line.count '*' : Int) ≤ barLength (starSize width most) most) ∧
      ∃ line ∈ text.splitOn '\n',
        (line.count '*' : Int) = barLength (starSize width most) most := by
  have hcounts := countOf_nonneg hpos
  obtain ⟨least, greatest, most, shares, hspans, hmost, -, hlisted, hlines, -⟩ :=
    lines_of_chart hcounts h
  have hsize := starSize_pos width most
  obtain ⟨⟨score, hscore⟩, hgreatest⟩ := maxCount_spec hmost
  have hmostPos : 1 ≤ most := hpos score most hscore
  have hle : ∀ score, tally.countOf score ≤ most := fun score => by
    by_cases hscore : score ∈ tally.scores
    · exact hgreatest _ _ (mem_counts_of_mem_scores hscore)
    · rw [countOf_of_not_mem hscore]
      omega
  refine ⟨most, hmost, hmostPos, fun line hline => ?_, ?_⟩
  · rw [hlines] at hline
    obtain ⟨share, -, rfl⟩ := List.mem_map.mp hline
    rw [count_star_rowText]
    exact starsOf_le hsize (hcounts share.1) (hle share.1)
  · have hmem : score ∈ shares.map (·.1) :=
      hlisted ▸ hspans.mem_range (mem_scores_iff.mpr ⟨most, hscore⟩)
    obtain ⟨share, hshare, rfl⟩ := List.mem_map.mp hmem
    refine ⟨_, hlines ▸ List.mem_map_of_mem hshare, ?_⟩
    rw [count_star_rowText, countOf_of_mem hscores hscore]
    exact starsOf_of_pos hsize hmostPos

/-- The bars of a chart have at most twice the stars of the width. They have at most one more than
the width just if the largest count is below the width, or if what is left of it is less than what
each star stands for. -/
theorem bars_fit_iff (hpos : ∀ score count, (score, count) ∈ tally.counts → 0 < count)
    (hscores : tally.scores.Nodup) (hwidth : 1 ≤ width) (h : tally.chart width = .ok text) :
    ∃ most, tally.maxCount = .ok most ∧
      (∀ line ∈ text.splitOn '\n', (line.count '*' : Int) ≤ 2 * width) ∧
      ((∀ line ∈ text.splitOn '\n', (line.count '*' : Int) ≤ width + 1) ↔
        most < width ∨ most % width < most / width) := by
  obtain ⟨most, hmost, hpositive, hstars, longest, hlongest, hcount⟩ :=
    exists_longest_line hpos hscores h
  refine ⟨most, hmost, fun line hline => ?_, ?_⟩
  · have htwice : barLength (starSize width most) most ≤ 2 * max width 1 :=
      barLength_le (le_refl most)
    have := hstars line hline
    omega
  · rw [← barLength_longest_le_iff hwidth hpositive]
    constructor
    · exact fun hall => hcount ▸ hall longest hlongest
    · exact fun hshort line hline => (hstars line hline).trans hshort

/-- Three samples and two stars: none of the three is put together with another one. -/
theorem bars_fit_iff_overlong :
    (∀ score count, (score, count) ∈ [((1 : Int), (3 : Int))] → 0 < count) ∧
      (scores ⟨[(1, 3)], 3⟩).Nodup ∧
      ∃ text, chart ⟨[(1, 3)], 3⟩ 2 = .ok text ∧
        ¬ ∀ line ∈ text.splitOn '\n', (line.count '*' : Int) ≤ 2 + 1 := by
  have hpos : ∀ score count, (score, count) ∈ [((1 : Int), (3 : Int))] → 0 < count := by
    simp
  have hscores : (scores ⟨[(1, 3)], 3⟩).Nodup := by decide
  have htext : chart ⟨[(1, 3)], 3⟩ 2 = .ok "  1. 100.0: ****".toList := by decide +kernel
  obtain ⟨most, hmost, -, hfit⟩ := bars_fit_iff hpos hscores (by decide) htext
  cases hmost
  exact ⟨hpos, hscores, _, htext, mt hfit.mp (by decide)⟩

end DiceNotation.Tally
