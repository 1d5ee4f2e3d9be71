import DiceNotation.Numeral.Entry
import DiceNotation.Proofs.Numeral.Plain
import DiceNotation.Proofs.Text.Lines
import DiceNotation.Proofs.Text.Margins

/-!
# Numbers that are entered as they are written

Every number that can be written is understood as it is written, and so is one behind a plus sign.
-/

namespace DiceNotation

namespace Numeral

theorem fits_of_forall_lt {numbers : List Int} (h : ∀ n ∈ numbers, n.natAbs < 10) :
    ∀ n ∈ numbers, fits n = true :=
  fun n hn => fits_of_lt 1 (by decide) (h n hn)

theorem isSpace_of_ascii {c : Char} (h : c.isDigit = true) : Text.isSpace c = false := by
  rw [Text.isSpace, Text.isBlank_of_isDigit (Text.isDigit_of_ascii h), Bool.false_and]

theorem ne_of_ascii {c other : Char} (h : c.isDigit = true) (hother : other.isDigit = false) :
    c ≠ other := by
  rintro rfl
  cases h.symm.trans hother

theorem ungrouped?_of_ascii {digits : Text} (h : ∀ c ∈ digits, c.isDigit = true) :
    ungrouped? digits = some digits := by
  have hgo : ∀ digits : Text, (∀ c ∈ digits, c.isDigit = true) →
      ungrouped?.go digits = some digits := by
    intro digits h
    induction digits with
    | nil => rfl
    | cons c digits ih =>
      obtain ⟨hc, hdigits⟩ := List.forall_mem_cons.mp h
      have hne : c ≠ '_' := ne_of_ascii hc (by decide)
      simp [ungrouped?.go, hne, ih hdigits]
  cases digits with
  | nil => rfl
  | cons c digits =>
    have hne : c ≠ '_' := ne_of_ascii (h c List.mem_cons_self) (by decide)
    simp [ungrouped?, hne, hgo _ h]

/-! ### Numbers in their written form -/

theorem IsPlain.isAscii {n : Int} (h : IsPlain n) : ∀ c ∈ text n, c.isDigit = true := by
  obtain ⟨m, rfl, _⟩ := h.exists_eq
  exact fun c hc => Nat.isDigit_of_mem_toDigits (by decide) (by decide) hc

theorem ofArgument?_of_splitSign {given : Text} {negative : Bool} {m : Nat} (hm : IsPlain m)
    (hspace : ∀ c ∈ given, Text.isSpace c = false)
    (hsplit : splitSign given = (negative, text m)) :
    ofArgument? given = some (withSign negative m) := by
  have hread : read (text m) = .ok (value (text m)) := if_pos hm.length_text_le
  have hvalue : value (text m) = m := Int.ofNat.inj hm.value_text
  rw [ofArgument?, Text.trim_eq_self hspace, hsplit]
  simpa [ungrouped?_of_ascii hm.isAscii, hm.text_ne_nil, hread, hvalue] using
    hm.isDigit_of_mem_text

/-- Every number that can be written is read back on a command line. -/
theorem ofArgument?_text {n : Int} (h : fits n = true) : ofArgument? (text n) = some n := by
  rw [fits_iff] at h
  have hspace : ∀ c ∈ text n, Text.isSpace c = false := fun c hc => by
    obtain hdigit | rfl := cases_of_mem_text hc
    · exact isSpace_of_ascii hdigit
    · decide
  cases n with
  | ofNat m =>
    have hm : IsPlain (m : Int) := isPlain_of_lt h
    obtain ⟨c, rest, htext⟩ := List.exists_cons_of_ne_nil hm.text_ne_nil
    have hc : c.isDigit = true := hm.isAscii c (by simp [htext])
    have hsplit : splitSign (text (m : Int)) = (false, text (m : Int)) := by
      simp [htext, splitSign, ne_of_ascii hc]
    exact ofArgument?_of_splitSign hm hspace hsplit
  | negSucc m =>
    have hm : IsPlain ((m + 1 : Nat) : Int) := isPlain_of_lt h
    exact ofArgument?_of_splitSign hm hspace rfl

theorem ofArgument?_signedText {n : Int} (h : fits n = true) :
    ofArgument? (signedText n) = some n := by
  unfold signedText
  split
  next => exact ofArgument?_text h
  next hnonneg =>
    obtain ⟨m, rfl⟩ := Int.eq_ofNat_of_zero_le (not_lt.mp hnonneg)
    have hm : IsPlain (m : Int) := ⟨Int.natCast_nonneg m, h⟩
    have hspace : ∀ c ∈ '+' :: text (m : Int), Text.isSpace c = false :=
      List.forall_mem_cons.mpr ⟨by decide, fun c hc => isSpace_of_ascii (hm.isAscii c hc)⟩
    exact ofArgument?_of_splitSign hm hspace rfl

end Numeral

end DiceNotation
