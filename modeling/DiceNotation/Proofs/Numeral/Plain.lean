import DiceNotation.Numeral
import Mathlib.Algebra.Group.Nat.Defs

/-!
# Plain numbers

The numbers that a run of digits can stand for, if it is short enough to be read. Each of them is
written as such a run, with ASCII digits and without leading zeros.
-/

namespace DiceNotation

theorem Text.digitValue?_of_ascii {c : Char} (h : c.isDigit = true) :
    digitValue? c = some (c.toNat - 48) := by
  have hrange : 48 ≤ c.toNat ∧ c.toNat < 58 := by
    simp only [Char.isDigit, Bool.and_eq_true, decide_eq_true_eq] at h
    have hlow : 48 ≤ c.toNat := h.1
    have hhigh : c.toNat ≤ 57 := h.2
    omega
  have hfind : (zeros.find? fun z => z ≤ c.toNat && c.toNat < z + 10) = some 48 := by
    rw [zeros, List.find?_cons_of_pos (by simpa using hrange)]
  rw [digitValue?, hfind]
  rfl

theorem Text.isDigit_of_ascii {c : Char} (h : c.isDigit = true) : isDigit c = true := by
  rw [isDigit, digitValue?_of_ascii h]
  rfl

namespace Numeral

theorem fits_of_lt (digits : Nat) {n : Int} (hdigits : digits ≤ digitLimit)
    (h : n.natAbs < 10 ^ digits) : fits n = true := by
  have hpow : ∀ limit, digits ≤ limit → n.natAbs < Nat.pow 10 limit :=
    fun _ hlimit => Nat.lt_of_lt_of_le h (Nat.pow_le_pow_right (by decide) hlimit)
  rw [fits_iff]
  delta bound
  exact hpow digitLimit hdigits

theorem fits_of_between {low high n : Int} (hlow : fits low = true) (hhigh : fits high = true)
    (hle : low ≤ n) (hge : n ≤ high) : fits n = true := by
  rw [fits_iff] at hlow hhigh ⊢
  generalize bound = limit at hlow hhigh ⊢
  omega

/-- Neither negative nor too long to be written. -/
structure IsPlain (n : Int) : Prop where
  nonneg : 0 ≤ n
  fits : fits n = true

instance (n : Int) : Decidable (IsPlain n) :=
  decidable_of_iff (0 ≤ n ∧ fits n = true) ⟨fun h => ⟨h.1, h.2⟩, fun h => ⟨h.nonneg, h.fits⟩⟩

theorem isPlain_of_lt {n : Nat} (h : n < bound) : IsPlain n := by
  refine ⟨Int.natCast_nonneg n, ?_⟩
  rw [fits_iff, Int.natAbs_natCast]
  exact h

theorem IsPlain.exists_eq {n : Int} (h : IsPlain n) : ∃ m : Nat, n = m ∧ m < bound := by
  obtain ⟨m, rfl⟩ := Int.eq_ofNat_of_zero_le h.nonneg
  have hfits := (fits_iff m).mp h.fits
  rw [Int.natAbs_natCast] at hfits
  exact ⟨m, rfl, hfits⟩

/-! ### The number of a text -/

theorem foldl_value_lt (digits : Text) (n : Nat) :
    digits.foldl (fun n c => 10 * n + (Text.digitValue? c).getD 0) n <
      10 ^ digits.length * (n + 1) := by
  induction digits generalizing n with
  | nil => simp
  | cons c digits ih =>
    have hdigit : (Text.digitValue? c).getD 0 ≤ 9 := by
      cases hc : Text.digitValue? c with
      | none => simp
      | some d =>
        have := Text.digitValue?_lt hc
        simp only [Option.getD_some]
        omega
    calc
      _ < 10 ^ digits.length * (10 * n + (Text.digitValue? c).getD 0 + 1) := ih _
      _ ≤ 10 ^ digits.length * (10 * (n + 1)) := Nat.mul_le_mul_left _ (by omega)
      _ = 10 ^ (c :: digits).length * (n + 1) := by
        rw [List.length_cons, Nat.pow_succ, Nat.mul_assoc]

theorem value_lt (digits : Text) : value digits < 10 ^ digits.length := by
  simpa [value] using foldl_value_lt digits 0

theorem isPlain_value {digits : Text} (h : digits.length ≤ digitLimit) :
    IsPlain (value digits) := by
  apply isPlain_of_lt
  unfold bound
  generalize digitLimit = limit at h
  exact Nat.lt_of_lt_of_le (value_lt digits) (Nat.pow_le_pow_right (by decide) h)

/-! ### The text of a number -/

theorem IsPlain.isDigit_of_mem_text {n : Int} (h : IsPlain n) :
    ∀ c ∈ text n, Text.isDigit c = true := by
  obtain ⟨m, rfl, _⟩ := h.exists_eq
  intro c hc
  exact Text.isDigit_of_ascii (Nat.isDigit_of_mem_toDigits (by decide) (by decide) hc)

theorem IsPlain.text_ne_nil {n : Int} (h : IsPlain n) : text n ≠ [] := by
  obtain ⟨m, rfl, _⟩ := h.exists_eq
  exact Nat.toDigits_ne_nil

theorem IsPlain.length_text_le {n : Int} (h : IsPlain n) : (text n).length ≤ digitLimit := by
  obtain ⟨m, rfl, hm⟩ := h.exists_eq
  have hpos : 0 < digitLimit := by decide
  unfold bound at hm
  generalize digitLimit = limit at hpos hm
  exact (Nat.length_toDigits_le_iff (by decide) hpos).mpr hm

theorem foldl_value_of_ascii {digits : Text} (h : ∀ c ∈ digits, c.isDigit = true) (n : Nat) :
    digits.foldl (fun n c => 10 * n + (Text.digitValue? c).getD 0) n =
      Nat.ofDigitChars 10 digits n := by
  induction digits generalizing n with
  | nil => rfl
  | cons c digits ih =>
    rw [List.foldl_cons, Nat.ofDigitChars_cons, ← ih fun d hd => h d (List.mem_cons_of_mem c hd),
      Text.digitValue?_of_ascii (h c List.mem_cons_self)]
    rfl

theorem IsPlain.value_text {n : Int} (h : IsPlain n) : (value (text n) : Int) = n := by
  obtain ⟨m, rfl, _⟩ := h.exists_eq
  have hdigits : ∀ c ∈ Nat.toDigits 10 m, c.isDigit = true := fun c hc =>
    Nat.isDigit_of_mem_toDigits (by decide) (by decide) hc
  have hvalue : value (Nat.toDigits 10 m) = m := by
    rw [value, foldl_value_of_ascii hdigits, Nat.ofDigitChars_ten_toDigits]
  exact congrArg Int.ofNat hvalue

end Numeral

end DiceNotation
