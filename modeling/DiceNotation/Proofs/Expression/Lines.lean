import DiceNotation.Display
import DiceNotation.Proofs.Expression.Canonical
import DiceNotation.Proofs.Text.Lines

/-!
# Displayed texts on one line

No value has a line end in its text, and neither has an expression with notation of its own. Only
the label of a pool could bring one in.
-/

namespace DiceNotation

open Numeral

theorem Symbol.isLine_text (sign : Symbol) : sign.text.IsLine := by
  cases sign <;> simp [Symbol.text]

theorem Keyword.isLine_text (word : Keyword) : word.text.IsLine := by
  cases word <;> simp [Keyword.text]

theorem Percentile.isLine_text (size : Percentile) : size.text.IsLine := by
  cases size <;> simp [Percentile.text]

theorem Modifier.isLine_text (modifier : Modifier) : modifier.text.IsLine := by
  have hexplosion : ∀ once twice threshold again,
      (explosionText once twice threshold again).IsLine := by
    intro once twice threshold again
    cases threshold <;> cases again <;>
      simp [explosionText, Symbol.isLine_text, Numeral.isLine_text]
  cases modifier <;>
    simp [text, hexplosion, Symbol.isLine_text, Keyword.isLine_text, Numeral.isLine_text]

theorem Pool.IsCanonical.isLine_text {dice : Pool} (h : dice.IsCanonical) : dice.text.IsLine := by
  have hsize : Text.IsLine (dice.marker?.getD (Numeral.text dice.sides)) := by
    cases hmarker : dice.marker? with
    | none => exact Numeral.isLine_text _
    | some label =>
      obtain ⟨size, rfl, -⟩ := h.label label (Option.filter_eq_some_iff.mp hmarker).1
      exact size.isLine_text
  unfold text
  cases dice.modifier <;>
    simp [hsize, Numeral.isLine_text, Modifier.isLine_text]

theorem Expression.IsCanonical.isLine_text {tree : Expression} (h : tree.IsCanonical) :
    tree.text.IsLine := by
  apply h.induction
  case number => exact fun n _ => Numeral.isLine_text n
  case pool => exact fun dice hdice => hdice.isLine_text
  case sum | difference =>
    intro left right hleft hright
    simp [text, hleft, hright]
  case target =>
    intro inner side threshold hinner _
    cases side <;> simp [text, hinner, Numeral.isLine_text]
  case success =>
    intro inner threshold step hinner _ _ _
    unfold text
    split <;> simp [hinner, Numeral.isLine_text]
  case comparison =>
    intro left relation right hleft hright
    simp [text, hleft, hright, Symbol.isLine_text]

theorem Die.isLine_text (die : Die) : die.text.IsLine := by
  cases hstatus : die.status <;> simp [text, hstatus, Status.mark, Numeral.isLine_text]

theorem Roll.isLine_text (roll : Roll) : roll.text.IsLine := by
  have hitems : Text.IsLine ([',', ' '].intercalate roll.items) := by
    refine Text.isLine_intercalate (by simp) fun item hitem => ?_
    obtain hdie | hconstant := List.mem_append.mp hitem
    · obtain ⟨die, -, rfl⟩ := List.mem_map.mp hdie
      exact die.isLine_text
    · split at hconstant
      · cases hconstant
      · rw [List.mem_singleton.mp hconstant]
        exact isLine_signedText _
  have hlevel : roll.levelText.IsLine := by
    unfold levelText
    split <;> simp [Numeral.isLine_text]
  unfold text
  split <;> simp [hitems, hlevel, Numeral.isLine_text]

theorem Value.isLine_text (value : Value) : value.text.IsLine := by
  induction value with
  | plain roll => exact roll.isLine_text
  | versus roll left right ihleft ihright => simp [text, ihleft, ihright, Numeral.isLine_text]

end DiceNotation
