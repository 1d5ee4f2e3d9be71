import DiceNotation.Proofs.Tally.Shares
import DiceNotation.Proofs.Text.Lines
import DiceNotation.Tally.Chart

/-!
# The rows of a chart

The chart of a tally of some scores has one row for each score of its range, or it fails: with a
score that cannot be written, or with a bar whose stars no number of 64 bits counts. A bar has at
most about twice the stars that the width gives, so such a bar takes as large a width.
-/

namespace DiceNotation

theorem Binary64.cases_of_mem_oneDecimal {number : Binary64} {c : Char}
    (h : c ∈ number.oneDecimal) : c.isDigit = true ∨ c ∈ ['-', '.', 'i', 'n', 'f'] := by
  have hsign : ∀ negative, c ∈ oneDecimal.sign negative → c = '-' := by
    intro negative
    cases negative <;> simp [oneDecimal.sign]
  have htext : ∀ n : Int, c ∈ Numeral.text n → c.isDigit = true ∨ c ∈ ['-', '.', 'i', 'n', 'f'] :=
    fun n hmem => (Numeral.cases_of_mem_text hmem).imp_right fun hminus => by simp [hminus]
  cases number with
  | infinite negative =>
    obtain hmem | hmem := List.mem_append.mp h
    · exact .inr (by simp [hsign negative hmem])
    · exact .inr (List.mem_cons_of_mem _ (List.mem_cons_of_mem _ hmem))
  | finite negative mantissa exponent =>
    simp only [oneDecimal, List.mem_append, List.mem_cons] at h
    obtain (hmem | hmem) | rfl | hmem := h
    · exact .inr (by simp [hsign negative hmem])
    · exact htext _ hmem
    · exact .inr (by simp)
    · exact htext _ hmem

namespace Tally

theorem starSize_pos (width maxCount : Int) : 1 ≤ starSize width maxCount := Int.le_max_left 1 _

/-- No bar has more than twice the stars that the width gives. -/
theorem barLength_le {width maxCount count : Int} (hcount : count ≤ maxCount) :
    barLength (starSize width maxCount) count ≤ 2 * max width 1 := by
  have hpos := starSize_pos width maxCount
  have hwidth : 1 ≤ max width 1 := Int.le_max_right width 1
  have hstars := Int.ediv_mul_le count (show starSize width maxCount ≠ 0 by omega)
  have hbelow := Int.lt_ediv_add_one_mul_self maxCount (show 0 < max width 1 by omega)
  have hunit : maxCount / max width 1 ≤ starSize width maxCount := by
    rw [starSize, Int.fdiv_eq_ediv_of_nonneg _ (by omega)]
    exact Int.le_max_right 1 _
  rw [barLength, Int.fdiv_eq_ediv_of_nonneg _ (by omega)]
  generalize count / starSize width maxCount = stars at hstars
  generalize maxCount / max width 1 = quotient at hbelow hunit
  have htwice : stars < 2 * max width 1 := by nlinarith
  omega

/-- For `indexLimit` stars it takes one sample less, and half as large a width. -/
theorem indexLimit_le {width maxCount count : Int} (hcount : count ≤ maxCount)
    (h : indexLimit ≤ barLength (starSize width maxCount) count) :
    indexLimit ≤ maxCount + 1 ∧ indexLimit ≤ 2 * width := by
  have hpos := starSize_pos width maxCount
  have htwice : barLength (starSize width maxCount) count ≤ 2 * max width 1 := barLength_le hcount
  have hlimit : indexLimit = 2 ^ 63 := by decide
  rw [barLength, Int.fdiv_eq_ediv_of_nonneg _ (by omega)] at h htwice
  have hstars := Int.ediv_mul_le count (show starSize width maxCount ≠ 0 by omega)
  generalize count / starSize width maxCount = stars at h htwice hstars
  have hcounted : stars ≤ count := by nlinarith
  exact ⟨by omega, by omega⟩

/-! ### Bars and rows -/

/-- How many stars the row of a count has. -/
def starsOf (size count : Int) : Nat := if count = 0 then 0 else (barLength size count).toNat

def barText (stars : Nat) : Text := if stars = 0 then [] else ' ' :: List.replicate stars '*'

/-- A row with its label and its share in percent, and with a bar if there are stars. -/
def rowText (score : Int) (share : Binary64) (stars : Nat) : Text :=
  (Numeral.text score).leftpad 3 ' ' ++ '.' :: ' ' :: (share.scale 100).oneDecimal.leftpad 5 ' '
    ++ ':' :: barText stars

theorem barLength_pos {size count : Int} (hsize : 1 ≤ size) (hcount : 0 ≤ count) :
    1 ≤ barLength size count := by
  have := Int.fdiv_nonneg hcount (show 0 ≤ size by omega)
  rw [barLength]
  omega

/-- A bar has its stars, or it is too long. -/
theorem bar_cases {size count : Int} (hsize : 1 ≤ size) (hcount : 0 ≤ count) :
    (barLength size count < indexLimit ∧ bar size count = .ok (barText (starsOf size count))) ∨
      indexLimit ≤ barLength size count ∧ bar size count = .error .hugeBar := by
  have hpos := barLength_pos hsize hcount
  have hlimit : 1 < indexLimit := by decide
  have hlow : ¬ barLength size count < -indexLimit := by omega
  unfold bar stars starsOf
  by_cases hnone : count = 0
  · subst hnone
    refine .inl ⟨?_, rfl⟩
    rw [barLength, Int.zero_fdiv]
    exact hlimit
  · simp only [hnone, hlow, if_false, false_or]
    have hstars : (barLength size count).toNat ≠ 0 := by omega
    by_cases hhuge : indexLimit ≤ barLength size count
    · refine .inr ⟨hhuge, ?_⟩
      rw [if_pos hhuge]
      rfl
    · refine .inl ⟨by omega, ?_⟩
      rw [if_neg hhuge, barText, if_neg hstars]
      rfl

theorem isLine_barText (stars : Nat) : (barText stars).IsLine := by
  unfold barText
  split <;> simp

theorem isLine_rowText (score : Int) (share : Binary64) (stars : Nat) :
    (rowText score share stars).IsLine := by
  have hshare : (share.scale 100).oneDecimal.IsLine := fun hmem =>
    absurd (Binary64.cases_of_mem_oneDecimal hmem) (by decide)
  simp [rowText, List.leftpad, Numeral.isLine_text, hshare, isLine_barText]

/-- All stars of a row are in its bar. -/
theorem count_star_rowText (score : Int) (share : Binary64) (stars : Nat) :
    (rowText score share stars).count '*' = stars := by
  have hlabel : '*' ∉ Numeral.text score := fun hmem =>
    absurd (Numeral.cases_of_mem_text hmem) (by decide)
  have hshare : '*' ∉ (share.scale 100).oneDecimal := fun hmem =>
    absurd (Binary64.cases_of_mem_oneDecimal hmem) (by decide)
  have hbar : (barText stars).count '*' = stars := by
    unfold barText
    split
    next h => simp [h]
    next => simp
  simp [rowText, List.leftpad, List.count_replicate, List.count_eq_zero.mpr hlabel,
    List.count_eq_zero.mpr hshare, hbar]

variable {tally : Tally} {scores : List Int}

/-- A row is written unless its score is too long, or its bar. -/
theorem chartRow_cases {size score : Int} (hsize : 1 ≤ size) (hcount : 0 ≤ tally.countOf score)
    (share : Binary64) :
    (Numeral.fits score = false ∧
        tally.chartRow size score share = .error (.numeral .unwritable)) ∨
      (Numeral.fits score = true ∧ indexLimit ≤ barLength size (tally.countOf score) ∧
        tally.chartRow size score share = .error (.tally .hugeBar)) ∨
      (Numeral.fits score = true ∧ barLength size (tally.countOf score) < indexLimit ∧
        tally.chartRow size score share =
          .ok (rowText score share (starsOf size (tally.countOf score)))) := by
  unfold chartRow Numeral.checked
  rw [List.all_cons, List.all_nil, Bool.and_true]
  cases hfits : Numeral.fits score with
  | false => exact .inl ⟨rfl, rfl⟩
  | true =>
    obtain ⟨hshort, hbar⟩ | ⟨hlong, hbar⟩ := bar_cases hsize hcount
    · refine .inr (.inr ⟨rfl, hshort, ?_⟩)
      rw [hbar]
      rfl
    · refine .inr (.inl ⟨rfl, hlong, ?_⟩)
      rw [hbar]
      rfl

theorem maxCount_spec {most : Int} (h : tally.maxCount = .ok most) :
    (∃ score, (score, most) ∈ tally.counts) ∧
      ∀ score count, (score, count) ∈ tally.counts → count ≤ most := by
  unfold maxCount at h
  split at h
  next greatest hgreatest =>
    cases h
    obtain ⟨hmem, hmax⟩ := List.max?_eq_some_iff.mp hgreatest
    obtain ⟨⟨score, _⟩, hentry, rfl⟩ := List.mem_map.mp hmem
    exact ⟨⟨score, hentry⟩, fun score count hcount => hmax _ (List.mem_map_of_mem hcount)⟩
  next => cases h

theorem Tallies.exists_maxCount (h : tally.Tallies scores) (hscores : scores ≠ []) :
    ∃ greatest, tally.maxCount = .ok greatest ∧ greatest ≤ tally.samples ∧
      ∀ score, 0 ≤ tally.countOf score ∧ tally.countOf score ≤ greatest := by
  obtain ⟨score, hscore⟩ := List.exists_mem_of_ne_nil scores hscores
  have hne : tally.counts.map (·.2) ≠ [] :=
    List.ne_nil_of_mem (List.mem_map_of_mem ((h.entry score _).mpr ⟨hscore, rfl⟩))
  obtain ⟨greatest, hgreatest⟩ := Option.ne_none_iff_exists'.mp (mt List.max?_eq_none_iff.mp hne)
  have hmost : tally.maxCount = .ok greatest := by rw [maxCount, hgreatest]
  obtain ⟨⟨most, hentry⟩, hmax⟩ := maxCount_spec hmost
  obtain ⟨-, hcount⟩ := (h.entry most _).mp hentry
  refine ⟨greatest, hmost, ?_, fun score => ?_⟩
  · rw [h.samples, hcount]
    exact Int.ofNat_le.mpr List.count_le_length
  · rw [h.countOf]
    refine ⟨Int.natCast_nonneg _, ?_⟩
    by_cases hscore : score ∈ scores
    · exact hmax _ _ ((h.entry score _).mpr ⟨hscore, rfl⟩)
    · rw [List.count_eq_zero.mpr hscore, hcount]
      exact Int.natCast_nonneg _

/-- The rows of a chart are worked out from the shares one by one. -/
theorem chartRows_eq {greatest : Int} {shares : List (Int × Binary64)}
    (hgreatest : tally.maxCount = .ok greatest) (hshares : tally.filled = .ok shares)
    (width : Int) :
    tally.chartRows width = shares.mapM fun share =>
      (share.1, ·) <$> tally.chartRow (starSize width greatest) share.1 share.2 := by
  have hrow : ∀ share : Int × Binary64,
      (do return (share.1, ← tally.chartRow (starSize width greatest) share.1 share.2)) =
        (share.1, ·) <$> tally.chartRow (starSize width greatest) share.1 share.2 := by
    intro share
    cases tally.chartRow (starSize width greatest) share.1 share.2 <;> rfl
  simp only [chartRows, hgreatest, hshares, Except.mapError, ← hrow]
  simp only [bind, Except.bind]

theorem Tallies.chartRows_eq (h : tally.Tallies scores) (hscores : scores ≠ [])
    {least greatest most : Int} (hspans : tally.Spans least greatest)
    (hmost : tally.maxCount = .ok most) (width : Int) :
    tally.chartRows width = (Int.range least (greatest + 1)).mapM fun score =>
      (score, ·) <$> tally.chartRow (starSize width most) score
        (Binary64.ofQuotient (reaching scores score) tally.samples) := by
  rw [Tally.chartRows_eq hmost (h.filled_eq hscores hspans), List.mapM_map]
  rfl

/-- A chart has a row for each score from the least to the greatest. -/
theorem Tallies.of_chartRows (h : tally.Tallies scores) (hscores : scores ≠ []) {width : Int}
    {rows : List (Int × Text)} (hrows : tally.chartRows width = .ok rows) :
    ∃ least greatest, tally.Spans least greatest ∧ least ≤ greatest ∧
      (rows.length : Int) = greatest - least + 1 ∧ (∀ row ∈ rows, row.2.IsLine) ∧
      ∀ score ∈ scores, Numeral.fits score = true := by
  obtain ⟨least, greatest, hspans, hleast, -, hbetween⟩ := h.exists_spans hscores
  obtain ⟨most, hmost, -, hcounts⟩ := h.exists_maxCount hscores
  rw [h.chartRows_eq hscores hspans hmost] at hrows
  have hrow : ∀ {score : Int} {row : Int × Text},
      (score, ·) <$> tally.chartRow (starSize width most) score
        (Binary64.ofQuotient (reaching scores score) tally.samples) = .ok row →
      row.2.IsLine ∧ Numeral.fits score = true := by
    intro score row hrow
    obtain ⟨text, htext, rfl⟩ := Results.map_eq_ok_iff.mp hrow
    obtain ⟨-, hfault⟩ | ⟨-, -, hfault⟩ | ⟨hfits, -, hshown⟩ := chartRow_cases
      (starSize_pos width most) (hcounts score).1
      (Binary64.ofQuotient (reaching scores score) tally.samples)
    · cases htext.symm.trans hfault
    · cases htext.symm.trans hfault
    · cases htext.symm.trans hshown
      exact ⟨isLine_rowText _ _ _, hfits⟩
  have hlength : rows.length = (greatest + 1 - least).toNat := by
    rw [← (Results.mapM_eq_ok_iff.mp hrows).length_eq, Int.range, List.length_map,
      List.length_range]
  have hrange := (hbetween least hleast).2
  refine ⟨least, greatest, hspans, hrange, by omega, fun row hmem => ?_, fun score hscore => ?_⟩
  · obtain ⟨score, -, hresult⟩ := Results.exists_of_mem_results hrows hmem
    exact (hrow hresult).1
  · have hmem := hspans.mem_range ((h.mem_scores score).mpr hscore)
    obtain ⟨row, -, hresult⟩ := Results.exists_result_of_mem hrows hmem
    exact (hrow hresult).2

/-- A chart of some scores meets no fault but these two: a score of its range is too long to be
written, or a bar is huge, for which it takes as large a count and as large a width. -/
theorem Tallies.chartRows_eq_error (h : tally.Tallies scores) (hscores : scores ≠ [])
    {width : Int} {fault : Fault} (hrows : tally.chartRows width = .error fault) :
    fault = .numeral .unwritable ∨
      fault = .tally .hugeBar ∧ indexLimit ≤ tally.samples + 1 ∧ indexLimit ≤ 2 * width := by
  obtain ⟨least, greatest, hspans, -⟩ := h.exists_spans hscores
  obtain ⟨most, hmost, hsamples, hcounts⟩ := h.exists_maxCount hscores
  rw [h.chartRows_eq hscores hspans hmost] at hrows
  obtain ⟨score, -, hrow⟩ := Results.exists_of_mapM_eq_error hrows
  rw [Results.map_eq_error_iff] at hrow
  obtain ⟨-, hfault⟩ | ⟨-, hlong, hfault⟩ | ⟨-, -, hshown⟩ := chartRow_cases
    (starSize_pos width most) (hcounts score).1
    (Binary64.ofQuotient (reaching scores score) tally.samples)
  · cases hrow.symm.trans hfault
    exact .inl rfl
  · cases hrow.symm.trans hfault
    obtain ⟨hmany, hwidth⟩ := indexLimit_le (hcounts score).2 hlong
    exact .inr ⟨rfl, by omega, hwidth⟩
  · cases hrow.symm.trans hshown

/-- A chart of a single score has no row but that of its one bar. -/
theorem Tallies.chartRows_of_replicate {n : Nat} {score : Int}
    (h : tally.Tallies (List.replicate n score)) (hn : 0 < n) (hfits : Numeral.fits score = true)
    {width : Int} {cause : TallyFault} (hbar : bar (starSize width n) n = .error cause) :
    tally.chartRows width = .error (.tally cause) := by
  have hscores : List.replicate n score ≠ [] := by simpa using hn.ne'
  have hcount : tally.countOf score = n := by rw [h.countOf, List.count_replicate_self]
  obtain ⟨least, greatest, hspans, hleast, hgreatest, -⟩ := h.exists_spans hscores
  obtain rfl := List.eq_of_mem_replicate hleast
  obtain rfl := List.eq_of_mem_replicate hgreatest
  obtain ⟨most, hmost, hsamples, hcounts⟩ := h.exists_maxCount hscores
  have hall : most = n := by
    have hsome := (hcounts greatest).2
    rw [h.samples, List.length_replicate] at hsamples
    rw [hcount] at hsome
    omega
  have hsingle : Int.range greatest (greatest + 1) = [greatest] := by
    rw [Int.range, show (greatest + 1 - greatest).toNat = 1 by omega]
    simp
  have hrow : ∀ share,
      tally.chartRow (starSize width n) greatest share = .error (.tally cause) := by
    intro share
    unfold chartRow Numeral.checked
    rw [hcount, hbar, List.all_cons, List.all_nil, hfits]
    rfl
  rw [h.chartRows_eq hscores hspans hmost, hall, hsingle, List.mapM_cons, hrow]
  rfl

end Tally

end DiceNotation
