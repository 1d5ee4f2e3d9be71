import DiceNotation.Numeral
import Mathlib

/-!
# Texts on one line

Texts without a line end, and how lines make up a text: lines that are joined and closed by a line
end are the same as lines that each have one behind them.
-/

namespace DiceNotation

namespace Text

def IsLine (text : Text) : Prop := '\n' ∉ text

@[simp] theorem isLine_nil : IsLine [] := List.not_mem_nil

@[simp] theorem isLine_cons {c : Char} {text : Text} :
    IsLine (c :: text) ↔ c ≠ '\n' ∧ IsLine text := by
  simp [IsLine, eq_comm]

@[simp] theorem isLine_append {first second : Text} :
    IsLine (first ++ second) ↔ IsLine first ∧ IsLine second := by
  simp [IsLine]

@[simp] theorem isLine_replicate {c : Char} (hc : c ≠ '\n') (n : Nat) :
    IsLine (List.replicate n c) :=
  fun h => hc (List.eq_of_mem_replicate h).symm

theorem forall_mem_intercalate {P : Char → Prop} {separator : Text} {parts : List Text}
    (hseparator : ∀ c ∈ separator, P c) (h : ∀ part ∈ parts, ∀ c ∈ part, P c) :
    ∀ c ∈ separator.intercalate parts, P c := by
  induction parts with
  | nil => exact List.forall_mem_nil P
  | cons part parts ih =>
    obtain ⟨hpart, hparts⟩ := List.forall_mem_cons.mp h
    cases parts with
    | nil => simpa using hpart
    | cons next parts =>
      rw [List.intercalate_cons_cons, List.forall_mem_append, List.forall_mem_append]
      exact ⟨⟨hpart, hseparator⟩, ih hparts⟩

theorem isLine_intercalate {separator : Text} {parts : List Text} (hseparator : separator.IsLine)
    (h : ∀ part ∈ parts, part.IsLine) : IsLine (separator.intercalate parts) := by
  have hne : ∀ {part : Text}, part.IsLine → ∀ c ∈ part, c ≠ '\n' :=
    fun hpart _ hc => ne_of_mem_of_not_mem hc hpart
  exact fun hmem => forall_mem_intercalate (hne hseparator) (fun part hpart => hne (h part hpart))
    '\n' hmem rfl

/-- The parts as lines of a text, each with its line end. -/
def closedLines (parts : List Text) : Text := parts.flatMap (· ++ ['\n'])

theorem lines_append_newline {parts : List Text} (h : parts ≠ []) :
    lines parts ++ ['\n'] = closedLines parts := by
  induction parts with
  | nil => exact absurd rfl h
  | cons part parts ih =>
    cases parts with
    | nil => simp [lines, closedLines]
    | cons next parts =>
      have hrest := ih (List.cons_ne_nil next parts)
      rw [lines] at hrest ⊢
      rw [List.intercalate_cons_cons, List.append_assoc, List.append_assoc, hrest]
      simp [closedLines]

theorem splitOn_lines {parts : List Text} (hparts : parts ≠ []) (h : ∀ part ∈ parts, part.IsLine) :
    (lines parts).splitOn '\n' = parts :=
  List.splitOn_intercalate '\n' h hparts

end Text

namespace Numeral

theorem cases_of_mem_text {n : Int} {c : Char} (h : c ∈ text n) : c.isDigit = true ∨ c = '-' := by
  have hdigits : ∀ m : Nat, c ∈ Nat.toDigits 10 m → c.isDigit = true := fun m =>
    Nat.isDigit_of_mem_toDigits (by decide) (by decide)
  cases n with
  | ofNat m => exact .inl (hdigits m h)
  | negSucc m =>
    obtain rfl | h := List.mem_cons.mp h
    · exact .inr rfl
    · exact .inl (hdigits (m + 1) h)

theorem isLine_text (n : Int) : (text n).IsLine :=
  fun hmem => absurd (cases_of_mem_text hmem) (by decide)

theorem isLine_signedText (n : Int) : (signedText n).IsLine := by
  unfold signedText
  split
  · exact isLine_text n
  · exact Text.isLine_cons.mpr ⟨by decide, isLine_text n⟩

end Numeral

end DiceNotation
