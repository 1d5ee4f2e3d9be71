import DiceNotation.Binary64
import Mathlib

/-!
# Rounding

A quotient is rounded to the number of the format that is nearest to it. Where two are equally near,
it is the one with the even mantissa.
-/

namespace DiceNotation

/-- In units of the denominator no whole number is nearer to a quotient than the rounded one, and
one that is as near leaves the even one to be taken. -/
theorem roundedQuotient_nearest {numerator denominator : Nat} (hdenominator : 0 < denominator)
    (other : Int) :
    (numerator - roundedQuotient numerator denominator * denominator : Int).natAbs ≤
        (numerator - other * denominator : Int).natAbs ∧
      ((numerator - other * denominator : Int).natAbs ≤
          (numerator - roundedQuotient numerator denominator * denominator : Int).natAbs →
        other = roundedQuotient numerator denominator ∨
          roundedQuotient numerator denominator % 2 = 0) := by
  have hsplit : (numerator : Int) =
      (numerator / denominator : Nat) * denominator + (numerator % denominator : Nat) := by
    exact_mod_cast (Nat.div_add_mod' numerator denominator).symm
  have hrest : numerator % denominator < denominator := Nat.mod_lt _ hdenominator
  unfold roundedQuotient
  dsimp only
  simp only [Bool.or_eq_true, Bool.and_eq_true, decide_eq_true_eq, beq_iff_eq]
  generalize numerator / denominator = quotient at hsplit
  generalize numerator % denominator = rest at hsplit hrest
  obtain ⟨ahead, rfl⟩ : ∃ ahead : Int, other = quotient + ahead := ⟨other - quotient, by omega⟩
  have hother : (numerator : Int) - (quotient + ahead) * denominator =
      rest - ahead * denominator := by
    rw [hsplit]
    ring
  have hbelow : (numerator : Int) - (quotient : Nat) * denominator = rest := by omega
  have habove : (numerator : Int) - (quotient + 1 : Nat) * denominator = rest - denominator := by
    rw [hsplit]
    push_cast
    ring
  -- Two steps away from the quotient nothing is as near as one of its two neighbours.
  have hsteps : ahead * denominator ≤ -denominator ∨ ahead = 0 ∨ ahead = 1 ∨
      2 * (denominator : Int) ≤ ahead * denominator := by
    obtain hlow | rfl | rfl | hhigh : ahead ≤ -1 ∨ ahead = 0 ∨ ahead = 1 ∨ 2 ≤ ahead := by omega
    · exact .inl (by nlinarith)
    · exact .inr (.inl rfl)
    · exact .inr (.inr (.inl rfl))
    · exact .inr (.inr (.inr (by nlinarith)))
  rw [hother]
  generalize hproduct : ahead * (denominator : Int) = product at hsteps
  split_ifs with hup
  · rw [habove]
    obtain hlow | rfl | rfl | hhigh := hsteps <;> omega
  · rw [hbelow]
    obtain hlow | rfl | rfl | hhigh := hsteps <;> omega

namespace Binary64

/-! ### The numbers of the format -/

/-- A mantissa and an exponent that a number can have. -/
structure InFormat (mantissa : Nat) (exponent : Int) : Prop where
  mantissa_lt : mantissa < 2 ^ 53
  le_exponent : leastExponent ≤ exponent
  exponent_le : exponent ≤ greatestExponent

def magnitude (mantissa : Nat) (exponent : Int) : ℚ := mantissa * 2 ^ exponent

/-- No number of the format is nearer to `x`, and if another one is as near, the mantissa is even.
The mantissa has all of its 53 bits unless the exponent is the least one. -/
structure IsNearest (x : ℚ) (mantissa : Nat) (exponent : Int) : Prop where
  inFormat : InFormat mantissa exponent
  full : 2 ^ 52 ≤ mantissa ∨ exponent = leastExponent
  near : ∀ m e, InFormat m e → |x - magnitude mantissa exponent| ≤ |x - magnitude m e|
  even : ∀ m e, InFormat m e → |x - magnitude m e| ≤ |x - magnitude mantissa exponent| →
    magnitude m e = magnitude mantissa exponent ∨ mantissa % 2 = 0

/-! ### The exponent of a quotient -/

theorem two_zpow_add (k : Nat) (e : Int) : (2 : ℚ) ^ (e + k) = 2 ^ k * 2 ^ e := by
  rw [zpow_add₀ two_ne_zero, zpow_natCast, mul_comm]

theorem scaled_spec (numerator : Nat) {denominator : Nat} (hdenominator : 0 < denominator)
    (e : Int) :
    0 < (scaled numerator denominator e).2 ∧
      ((scaled numerator denominator e).1 : ℚ) * 2 ^ e / (scaled numerator denominator e).2 =
        numerator / denominator := by
  have hne : (denominator : ℚ) ≠ 0 := Nat.cast_ne_zero.mpr hdenominator.ne'
  unfold scaled
  split
  next hneg =>
    refine ⟨hdenominator, ?_⟩
    have hone : (2 : ℚ) ^ e.natAbs * 2 ^ e = 1 := by
      rw [← two_zpow_add, show e + e.natAbs = 0 by omega, zpow_zero]
    rw [Nat.shiftLeft_eq, Nat.cast_mul, Nat.cast_pow, Nat.cast_two, mul_assoc, hone, mul_one]
  next hnonneg =>
    refine ⟨by rw [Nat.shiftLeft_eq]; positivity, ?_⟩
    have hpow : (2 : ℚ) ^ e = 2 ^ e.natAbs := by
      rw [← zpow_natCast, show (e.natAbs : Int) = e by omega]
    rw [Nat.shiftLeft_eq, Nat.cast_mul, Nat.cast_pow, Nat.cast_two, hpow]
    exact mul_div_mul_right _ _ (by positivity)

theorem log2_bounds {n : Nat} (hn : 0 < n) :
    (2 : ℚ) ^ (n.log2 : Int) ≤ n ∧ (n : ℚ) < 2 * 2 ^ (n.log2 : Int) := by
  rw [zpow_natCast]
  constructor
  · exact_mod_cast Nat.log2_self_le hn.ne'
  · have hlt : n < 2 ^ n.log2 * 2 := by
      rw [← Nat.pow_succ]
      exact Nat.lt_log2_self
    rw [mul_comm]
    exact_mod_cast hlt

/-- On the grid of an exponent, quotients are compared by the scaled numbers. -/
theorem le_scaled_iff (numerator : Nat) {denominator : Nat} (hdenominator : 0 < denominator)
    (e : Int) (bits : Nat) :
    bits * (scaled numerator denominator e).2 ≤ (scaled numerator denominator e).1 ↔
      (bits * 2 ^ e : ℚ) ≤ numerator / denominator := by
  obtain ⟨hscale, hscaled⟩ := scaled_spec numerator hdenominator e
  have hscale' : (0 : ℚ) < (scaled numerator denominator e).2 := Nat.cast_pos.mpr hscale
  have hunit : (0 : ℚ) < 2 ^ e := by positivity
  rw [← hscaled, le_div_iff₀ hscale', mul_right_comm, mul_le_mul_iff_of_pos_right hunit]
  exact_mod_cast Iff.rfl

/-- A quotient has 53 bits or 54 on the grid that the logarithms give. -/
theorem quotient_bounds {numerator denominator : Nat} (hnumerator : 0 < numerator)
    (hdenominator : 0 < denominator) {low : Int}
    (h : (numerator.log2 : Int) - denominator.log2 - 53 = low) :
    2 ^ 52 * 2 ^ low ≤ (numerator / denominator : ℚ) ∧
      (numerator / denominator : ℚ) < 2 ^ 54 * 2 ^ low := by
  have hpos : (0 : ℚ) < denominator := Nat.cast_pos.mpr hdenominator
  obtain ⟨hlow, hlow'⟩ := log2_bounds hnumerator
  obtain ⟨hhigh, hhigh'⟩ := log2_bounds hdenominator
  have hlog : (2 : ℚ) ^ (numerator.log2 : Int) =
      2 ^ 53 * 2 ^ low * 2 ^ (denominator.log2 : Int) := by
    rw [← two_zpow_add, ← zpow_add₀ two_ne_zero]
    congr 1
    omega
  rw [hlog] at hlow hlow'
  rw [le_div_iff₀ hpos, div_lt_iff₀ hpos]
  constructor
  · calc
      2 ^ 52 * 2 ^ low * (denominator : ℚ)
        ≤ 2 ^ 52 * 2 ^ low * (2 * 2 ^ (denominator.log2 : Int)) := by gcongr
      _ = 2 ^ 53 * 2 ^ low * 2 ^ (denominator.log2 : Int) := by ring
      _ ≤ numerator := hlow
  · calc
      (numerator : ℚ) < 2 * (2 ^ 53 * 2 ^ low * 2 ^ (denominator.log2 : Int)) := hlow'
      _ = 2 ^ 54 * 2 ^ low * 2 ^ (denominator.log2 : Int) := by ring
      _ ≤ 2 ^ 54 * 2 ^ low * denominator := by gcongr

/-- The quotient lies below the numbers of 53 bits and not below those of 52, unless the exponent
is the least one. -/
theorem exponentFor_spec {numerator denominator : Nat} (hnumerator : 0 < numerator)
    (hdenominator : 0 < denominator) :
    (numerator / denominator : ℚ) < 2 ^ 53 * 2 ^ exponentFor numerator denominator ∧
      (2 ^ 52 * 2 ^ exponentFor numerator denominator ≤ (numerator / denominator : ℚ) ∨
        exponentFor numerator denominator = leastExponent) := by
  unfold exponentFor
  dsimp only
  generalize hlow : (numerator.log2 : Int) - denominator.log2 - 53 = low
  obtain ⟨habove, hbelow⟩ := quotient_bounds hnumerator hdenominator hlow
  have hsmall := le_scaled_iff numerator hdenominator low (2 ^ 53)
  rw [Nat.mul_comm, ← Nat.shiftLeft_eq, Nat.cast_pow, Nat.cast_two] at hsmall
  have hchosen : ∃ chosen, (if (scaled numerator denominator low).1 <
      (scaled numerator denominator low).2 <<< 53 then low else low + 1) = chosen ∧
        (numerator / denominator : ℚ) < 2 ^ 53 * 2 ^ chosen ∧
          2 ^ 52 * 2 ^ chosen ≤ (numerator / denominator : ℚ) := by
    have hnext : (2 : ℚ) ^ (low + 1) = 2 * 2 ^ low := by simpa using two_zpow_add 1 low
    split
    next h => exact ⟨low, rfl, not_le.mp (mt hsmall.mpr (not_le.mpr h)), habove⟩
    next h =>
      refine ⟨low + 1, rfl, ?_, ?_⟩ <;> rw [hnext]
      · linarith
      · linarith [hsmall.mp (not_lt.mp h)]
  obtain ⟨chosen, hchosen, hlt, hle⟩ := hchosen
  rw [hchosen]
  obtain hleast | hleast := le_total leastExponent chosen
  · rw [max_eq_right hleast]
    exact ⟨hlt, .inl hle⟩
  · rw [max_eq_left hleast]
    refine ⟨hlt.trans_le ?_, .inr rfl⟩
    exact mul_le_mul_of_nonneg_left (zpow_le_zpow_right₀ one_le_two hleast) (by positivity)

theorem exponentFor_nonpos {numerator denominator : Nat} (h : numerator ≤ denominator) :
    exponentFor numerator denominator ≤ 0 := by
  have hlog : numerator.log2 ≤ denominator.log2 := by
    rw [Nat.log2_eq_log_two, Nat.log2_eq_log_two]
    exact Nat.log_mono_right h
  unfold exponentFor leastExponent
  dsimp only
  split <;> omega

/-! ### The nearest number -/

/-- On the grid of an exponent the rounded quotient is nearest. -/
theorem roundedQuotient_near {a b : Nat} (hb : 0 < b) (e k : Int) :
    |(a * 2 ^ e / b : ℚ) - magnitude (roundedQuotient a b) e| ≤ |(a * 2 ^ e / b : ℚ) - k * 2 ^ e| ∧
      (|(a * 2 ^ e / b : ℚ) - k * 2 ^ e| ≤
          |(a * 2 ^ e / b : ℚ) - magnitude (roundedQuotient a b) e| →
        k = roundedQuotient a b ∨ roundedQuotient a b % 2 = 0) := by
  have hpos : (0 : ℚ) < b := Nat.cast_pos.mpr hb
  have hunit : (0 : ℚ) < 2 ^ e / b := by positivity
  have hdistance : ∀ k : Int, |(a * 2 ^ e / b : ℚ) - k * 2 ^ e| =
      (a - k * b : Int).natAbs * (2 ^ e / b) := by
    intro k
    have hfactor : (a * 2 ^ e / b : ℚ) - k * 2 ^ e = (a - k * b : Int) * (2 ^ e / b) := by
      push_cast
      field_simp
    rw [hfactor, abs_mul, abs_of_pos hunit, Nat.cast_natAbs, Int.cast_abs]
  have hrounded := hdistance (roundedQuotient a b)
  rw [Int.cast_natCast] at hrounded
  rw [magnitude, hrounded, hdistance, mul_le_mul_iff_of_pos_right hunit,
    mul_le_mul_iff_of_pos_right hunit, Nat.cast_le, Nat.cast_le]
  exact roundedQuotient_nearest hb k

theorem roundedQuotient_bounds {a b : Nat} (hb : 0 < b) {low high : Nat} (hlow : low * b ≤ a)
    (hhigh : a < high * b) : low ≤ roundedQuotient a b ∧ roundedQuotient a b ≤ high := by
  have hquotient : low ≤ a / b ∧ a / b < high :=
    ⟨(Nat.le_div_iff_mul_le hb).mpr hlow, (Nat.div_lt_iff_lt_mul hb).mpr hhigh⟩
  unfold roundedQuotient
  dsimp only
  split <;> omega

/-- What is nearest on the grid of its exponent is nearest in the whole format: numbers with larger
exponents lie on that grid, and those with smaller ones lie below the numbers of 52 bits on it. -/
theorem near_of_grid {x : ℚ} {mantissa : Nat} {exponent : Int}
    (hgrid : ∀ k : Int, |x - magnitude mantissa exponent| ≤ |x - k * 2 ^ exponent| ∧
      (|x - k * 2 ^ exponent| ≤ |x - magnitude mantissa exponent| →
        k = mantissa ∨ mantissa % 2 = 0))
    (hfull : 2 ^ 52 * 2 ^ exponent ≤ x ∨ exponent = leastExponent) {m : Nat} {e : Int}
    (h : InFormat m e) :
    |x - magnitude mantissa exponent| ≤ |x - magnitude m e| ∧
      (|x - magnitude m e| ≤ |x - magnitude mantissa exponent| →
        magnitude m e = magnitude mantissa exponent ∨ mantissa % 2 = 0) := by
  obtain hexponent | hexponent := le_or_gt exponent e
  · obtain ⟨shift, rfl⟩ := Int.exists_add_of_le hexponent
    have hcoarse : magnitude m (exponent + shift) = (m * 2 ^ shift : Int) * 2 ^ exponent := by
      rw [magnitude, two_zpow_add]
      push_cast
      ring
    obtain ⟨hnear, heven⟩ := hgrid (m * 2 ^ shift)
    rw [hcoarse]
    refine ⟨by exact_mod_cast hnear, fun hle => ?_⟩
    obtain heq | heven := heven (by exact_mod_cast hle)
    · refine .inl ?_
      rw [magnitude, ← Int.cast_natCast mantissa, ← heq]
    · exact .inr heven
  · have hlarge : 2 ^ 52 * 2 ^ exponent ≤ x :=
      hfull.resolve_right fun hleast => by have := h.le_exponent; omega
    have hsmall : magnitude m e < 2 ^ 52 * 2 ^ exponent := by
      obtain ⟨shift, hshift⟩ := Int.exists_add_of_le (show e + 1 ≤ exponent by omega)
      have hm : (m : ℚ) < 2 ^ 53 := by exact_mod_cast h.mantissa_lt
      calc
        magnitude m e < 2 ^ 53 * 2 ^ e := mul_lt_mul_of_pos_right hm (by positivity)
        _ = 2 ^ 52 * 2 ^ (e + 1) := by rw [zpow_add₀ two_ne_zero]; ring
        _ ≤ 2 ^ 52 * 2 ^ exponent := by
          exact mul_le_mul_of_nonneg_left (zpow_le_zpow_right₀ one_le_two (by omega))
            (by positivity)
    have hedge := (hgrid (2 ^ 52)).1
    rw [Int.cast_pow, Int.cast_ofNat] at hedge
    rw [abs_of_nonneg (show 0 ≤ x - 2 ^ 52 * 2 ^ exponent by linarith)] at hedge
    have hapart : |x - magnitude mantissa exponent| < |x - magnitude m e| := by
      rw [abs_of_pos (show 0 < x - magnitude m e by linarith)]
      linarith
    exact ⟨hapart.le, fun hle => absurd hle (not_le.mpr hapart)⟩

/-- A mantissa of 54 bits that comes from rounding is halved, with a larger exponent. -/
theorem magnitude_carry (exponent : Int) :
    magnitude (2 ^ 52) (exponent + 1) = magnitude (2 ^ 53) exponent := by
  rw [magnitude, magnitude, zpow_add₀ two_ne_zero]
  push_cast
  ring

/-- A quotient of at most one is rounded to the nearest number. -/
theorem exists_ofRatio_eq {numerator denominator : Nat} (hnumerator : 0 < numerator)
    (h : numerator ≤ denominator) (negative : Bool) :
    ∃ mantissa exponent, ofRatio negative numerator denominator =
        .finite negative mantissa exponent ∧
      IsNearest (numerator / denominator) mantissa exponent := by
  have hdenominator : 0 < denominator := by omega
  obtain ⟨hlt, hfull⟩ := exponentFor_spec hnumerator hdenominator
  have hsmall := exponentFor_nonpos h
  have hleast : leastExponent ≤ exponentFor numerator denominator := Int.le_max_left ..
  rw [ofRatio, if_neg hnumerator.ne']
  dsimp only
  generalize exponentFor numerator denominator = exponent at hlt hfull hsmall hleast
  obtain ⟨hb, hscaled⟩ := scaled_spec numerator hdenominator exponent
  have hbits := le_scaled_iff numerator hdenominator exponent
  generalize (scaled numerator denominator exponent).1 = a at hscaled hbits
  generalize (scaled numerator denominator exponent).2 = b at hb hscaled hbits
  have hgrid := roundedQuotient_near hb exponent (a := a)
  rw [hscaled] at hgrid
  have hnear := fun m e => near_of_grid hgrid hfull (m := m) (e := e)
  have hhigh : a < 2 ^ 53 * b := by
    have hnot := mt (hbits (2 ^ 53)).mp (not_le.mpr (by exact_mod_cast hlt))
    omega
  have hlow : 2 ^ 52 ≤ roundedQuotient a b ∨ exponent = leastExponent :=
    hfull.imp_left fun hfull =>
      (roundedQuotient_bounds hb ((hbits (2 ^ 52)).mpr (by exact_mod_cast hfull)) hhigh).1
  have hgreatest : exponent + 1 ≤ greatestExponent := by
    rw [greatestExponent]
    omega
  obtain hcarry | hfits := (roundedQuotient_bounds hb (Nat.zero_mul b ▸ a.zero_le) hhigh).2.eq_or_lt
  · rw [hcarry] at hnear
    refine ⟨2 ^ 52, exponent + 1, ?_, ⟨by norm_num, by omega, hgreatest⟩, .inl le_rfl, ?_, ?_⟩
    · have hcarried : (if roundedQuotient a b = 1 <<< 53 then (1 <<< 52, exponent + 1)
          else (roundedQuotient a b, exponent)) = (2 ^ 52, exponent + 1) :=
        if_pos (hcarry.trans (Nat.one_shiftLeft 53).symm)
      rw [hcarried]
      exact if_neg (not_lt.mpr hgreatest)
    · intro m e hformat
      rw [magnitude_carry]
      exact (hnear m e hformat).1
    · intro m e _ _
      exact .inr (by norm_num)
  · refine ⟨roundedQuotient a b, exponent, ?_, ⟨hfits, hleast, by omega⟩, hlow,
      fun m e hformat => (hnear m e hformat).1, fun m e hformat => (hnear m e hformat).2⟩
    have hkept : (if roundedQuotient a b = 1 <<< 53 then (1 <<< 52, exponent + 1)
        else (roundedQuotient a b, exponent)) = (roundedQuotient a b, exponent) :=
      if_neg (by rw [Nat.one_shiftLeft]; exact hfits.ne)
    rw [hkept]
    exact if_neg (by dsimp only; omega)

/-- A quotient of at most one is far from the largest numbers. -/
theorem ofRatio_ne_infinite {numerator denominator : Nat} (h : numerator ≤ denominator)
    (sign negative : Bool) : ofRatio sign numerator denominator ≠ .infinite negative := by
  obtain rfl | hnumerator := Nat.eq_zero_or_pos numerator
  · exact Binary64.noConfusion
  · obtain ⟨mantissa, exponent, hratio, -⟩ := exists_ofRatio_eq hnumerator h sign
    rw [hratio]
    exact Binary64.noConfusion

theorem exists_ofQuotient_eq {numerator denominator : Int} (hnumerator : 0 < numerator)
    (h : numerator ≤ denominator) :
    ∃ mantissa exponent, ofQuotient numerator denominator = .finite false mantissa exponent ∧
      IsNearest (numerator / denominator) mantissa exponent := by
  obtain ⟨n, rfl⟩ := Int.eq_ofNat_of_zero_le hnumerator.le
  obtain ⟨d, rfl⟩ := Int.eq_ofNat_of_zero_le (hnumerator.le.trans h)
  have hsign : (decide ((n : Int) < 0) != decide ((d : Int) < 0)) = false := by
    rw [decide_eq_false (Int.natCast_nonneg n).not_gt, decide_eq_false (Int.natCast_nonneg d).not_gt]
    rfl
  rw [ofQuotient, hsign, Int.natAbs_natCast, Int.natAbs_natCast, Int.cast_natCast,
    Int.cast_natCast]
  exact exists_ofRatio_eq (Int.natCast_pos.mp hnumerator) (Int.ofNat_le.mp h) false

end Binary64

end DiceNotation
