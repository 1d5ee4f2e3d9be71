import DiceNotation.Text.Blank
import DiceNotation.Text.Digit
import Mathlib.Data.List.DropRight

/-!
# Margins

What is trimmed from a text are blanks only, at both ends, and none is left there. A longer
beginning of a text keeps at least what a shorter one keeps. No digit is a blank, so trimming never
shortens a number.
-/

namespace DiceNotation.Text

theorem isBlank_of_isDigit {c : Char} (h : isDigit c = true) :
    isBlank c = false := by
  have hapart : ∀ z ∈ zeros, ∀ range ∈ blanks, z + 10 ≤ range.1 ∨ range.2 < z := by
    decide
  obtain ⟨value, hvalue⟩ := Option.isSome_iff_exists.mp h
  obtain ⟨z, hz, _⟩ := Option.map_eq_some_iff.mp hvalue
  have hmem := List.mem_of_find?_eq_some hz
  have hrange := List.find?_some hz
  simp only [Bool.and_eq_true, decide_eq_true_eq] at hrange
  cases hblank : isBlank c with
  | false => rfl
  | true =>
    obtain ⟨range, hrangeMem, hlow, hhigh⟩ := (inRanges_iff _ _).mp hblank
    have := hapart z hmem range hrangeMem
    omega

theorem trim_eq_self {isMargin : Char → Bool} {text : Text}
    (h : ∀ c ∈ text, isMargin c = false) : trim isMargin text = text := by
  have hdrop : ∀ text : Text, (∀ c ∈ text, isMargin c = false) →
      text.dropWhile isMargin = text := by
    intro text h
    cases text with
    | nil => rfl
    | cons c text => rw [List.dropWhile_cons_of_neg (by simp [h c List.mem_cons_self])]
  rw [trim, hdrop text h, hdrop text.reverse (by simpa using h), List.reverse_reverse]

theorem dropWhile_mono {p : Char → Bool} {front text : Text} (h : front <+: text) :
    front.dropWhile p <+: text.dropWhile p := by
  obtain ⟨rest, rfl⟩ := h
  rw [List.dropWhile_append]
  split
  next hempty =>
    rw [List.isEmpty_iff.mp hempty]
    exact List.nil_prefix
  next => exact List.prefix_append _ _

theorem rdropWhile_mono {p : Char → Bool} {front text : Text} (h : front <+: text) :
    front.rdropWhile p <+: text.rdropWhile p := by
  obtain ⟨rest, rfl⟩ := h
  induction rest using List.reverseRecOn with
  | nil => simp
  | append_singleton rest c ih =>
    rw [← List.append_assoc, List.rdropWhile_concat]
    split
    next => exact ih
    next =>
      have hfront := (List.rdropWhile_prefix p front).trans (List.prefix_append front rest)
      exact hfront.trans (List.prefix_append _ _)

theorem strip_eq (text : Text) : strip text = (text.dropWhile isBlank).rdropWhile isBlank := rfl

theorem strip_mono {front text : Text} (h : front <+: text) :
    strip front <+: strip text :=
  rdropWhile_mono (dropWhile_mono h)

theorem exists_margins (text : Text) :
    ∃ before after, text = before ++ strip text ++ after ∧
      (∀ c ∈ before, isBlank c = true) ∧ ∀ c ∈ after, isBlank c = true := by
  refine ⟨text.takeWhile isBlank, (text.dropWhile isBlank).rtakeWhile isBlank, ?_,
    fun c hc => List.mem_takeWhile_imp hc, fun c hc => List.mem_rtakeWhile_imp hc⟩
  rw [strip_eq, List.append_assoc, List.rdropWhile_append_rtakeWhile,
    List.takeWhile_append_dropWhile]

theorem exists_margins_append (front back : Text) :
    ∃ before between behind,
      front ++ back = before ++ strip front ++ between ++ strip back ++ behind ∧
        ∀ c ∈ before ++ between ++ behind, isBlank c = true := by
  obtain ⟨before, after, hfront, hbefore, hafter⟩ := exists_margins front
  obtain ⟨before', after', hback, hbefore', hafter'⟩ := exists_margins back
  refine ⟨before, after ++ before', after', ?_, ?_⟩
  · conv_lhs => rw [hfront, hback]
    simp only [List.append_assoc]
  · simp only [List.forall_mem_append]
    exact ⟨⟨hbefore, hafter, hbefore'⟩, hafter'⟩

/-- There is no blank at either end of the text. -/
structure IsTrimmed (text : Text) : Prop where
  head : ∀ h : text ≠ [], isBlank (text.head h) = false
  last : ∀ h : text ≠ [], isBlank (text.getLast h) = false

theorem isTrimmed_strip (text : Text) : IsTrimmed (strip text) := by
  rw [strip_eq]
  constructor
  case head =>
    intro hne
    rw [(List.rdropWhile_prefix isBlank _).head hne]
    exact List.head_dropWhile_not isBlank _
  case last =>
    intro hne
    simpa using List.rdropWhile_last_not isBlank _ hne

theorem strip_blanks_append {blanks : Text} (h : ∀ c ∈ blanks, isBlank c = true) (text : Text) :
    strip (blanks ++ text) = strip text := by
  rw [strip_eq, List.dropWhile_append_of_pos h, strip_eq]

end DiceNotation.Text
