import DiceNotation.CommandLine.Arguments
import DiceNotation.Proofs.Numeral.Entry

/-!
# Requests that are written out

Arguments with a display, a count and an expression behind the marker ask for just these, whatever
the expression looks like.
-/

namespace DiceNotation.CommandLine

/-- The arguments that ask for a display, a number of turns and an expression. -/
def writtenOut (display : Display) (count : Int) (expression : Text) : List Text :=
  [['-', 'd'], display.name, ['-', 'c'], Numeral.text count, marker, expression]

/-- What these arguments ask for, with the seed of the settings. -/
def request (settings : Settings) (display : Display) (count : Int) (expression : Text) : Request :=
  { expression, display, count := .number count, seed := .ofOption settings.seed }

theorem wordOfArgument_numeral {n : Int} (h : Numeral.IsPlain n) :
    Word.ofArgument (Numeral.text n) = .ok .value := by
  obtain ⟨c, rest, htext⟩ := List.exists_cons_of_ne_nil h.text_ne_nil
  have hc : c ≠ '-' := Numeral.ne_of_ascii (h.isAscii c (by simp [htext])) (by decide)
  rw [htext]
  unfold Word.ofArgument
  split
  next heq =>
    cases heq
    exact absurd rfl hc
  next => rfl

theorem numeral_ne_marker {n : Int} (h : Numeral.IsPlain n) : Numeral.text n ≠ marker := by
  intro heq
  have hminus := h.isAscii '-' (by simp [heq, marker])
  exact absurd hminus (by decide)

theorem readArguments_writtenOut (settings : Settings) (display : Display) {count : Int}
    (hcount : Numeral.IsPlain count) (expression : Text) :
    readArguments settings (writtenOut display count expression) =
      .ok (.request (request settings display count expression)) := by
  have hname : Word.ofArgument display.name = .ok .value := by cases display <;> rfl
  have hnotMarker : display.name ≠ marker := by cases display <;> decide
  have hdisplay : Display.read display.name = .ok display := by cases display <;> rfl
  have hclassify : classify (writtenOut display count expression) =
      .ok [(['-', 'd'], .option .display true none), (display.name, .value),
        (['-', 'c'], .option .count true none), (Numeral.text count, .value), (marker, .marker),
        (expression, .value)] := by
    have hd : Word.ofArgument ['-', 'd'] = .ok (.option .display true none) := rfl
    have hc : Word.ofArgument ['-', 'c'] = .ok (.option .count true none) := rfl
    have hshort : ∀ letter, ['-', letter] = marker ↔ letter = '-' := by simp [marker]
    simp [writtenOut, classify, hd, hc, hname, hnotMarker, wordOfArgument_numeral hcount, hshort,
      numeral_ne_marker hcount, bind, Except.bind, pure, Except.pure]
  have hread : Given.read .count (Numeral.text count) = .ok (.number count) := by
    simp [Given.read, numeral_ne_marker hcount, Numeral.ofArgument?_text hcount.fits]
  simp [readArguments, hclassify, gather, Gathered.give, Gathered.take, Gathered.leave,
    Gathered.request, request, hdisplay, hread, bind, Except.bind, pure, Except.pure]

end DiceNotation.CommandLine
