import DiceNotation.Proofs.Grammar.Derivation

/-!
# How a phrase ends

Only some lexemes can be the last one of a phrase. Where a last lexeme is the beginning of a longer
word, the longer word can stand in its place: the phrase then stands for another value, but it
is a phrase of the same rule.
-/

namespace DiceNotation.Grammar

/-- Numbers, sizes, whole modifiers and closings can end a phrase. -/
def CanEnd : Lexeme → Bool
  | .number _ | .percent _ | .keyword _ => true
  | .symbol sign =>
    match sign with
    | .bang | .twoBangs | .star | .twoStars | .twoPluses | .twoMinuses => true
    | .closeParen | .closeBracket | .closeBrace => true
    | _ => false
  | .die _ | .unknown _ | .finish => false

/-- Pairs of lexemes of which the second is at home wherever the first ends a phrase. -/
def Grows : Lexeme → Lexeme → Bool
  | .number _, .number _ => true
  | .percent _, .percent _ => true
  | .symbol .bang, .symbol .twoBangs => true
  | .symbol .star, .symbol .twoStars => true
  | _, _ => false

theorem eq_number_of_grows {digits : Text} {next : Lexeme} (h : Grows (.number digits) next = true) :
    ∃ longer, next = .number longer := by
  cases next with
  | number longer => exact ⟨longer, rfl⟩
  | _ => cases h

theorem eq_percent_of_grows {size : Percentile} {next : Lexeme}
    (h : Grows (.percent size) next = true) : ∃ larger, next = .percent larger := by
  cases next with
  | percent larger => exact ⟨larger, rfl⟩
  | _ => cases h

theorem eq_symbol_of_grows {sign : Symbol} {next : Lexeme} (h : Grows (.symbol sign) next = true) :
    sign = .bang ∧ next = .symbol .twoBangs ∨ sign = .star ∧ next = .symbol .twoStars := by
  cases sign with
  | bang =>
    cases next with
    | symbol other => cases other <;> first | exact .inl ⟨rfl, rfl⟩ | cases h
    | _ => cases h
  | star =>
    cases next with
    | symbol other => cases other <;> first | exact .inr ⟨rfl, rfl⟩ | cases h
    | _ => cases h
  | _ => cases h

/-- The phrase has a last lexeme that can end it, and can end in what this one grows into. -/
def EndsWell {α : Type} (derives : List Lexeme → α → Prop) (lexemes : List Lexeme) : Prop :=
  ∃ front last, lexemes = front ++ [last] ∧ CanEnd last = true ∧
    ∀ next, Grows last next = true → ∃ value, derives (front ++ [next]) value

theorem EndsWell.prepend {α β : Type} {derives : List Lexeme → α → Prop}
    {derives' : List Lexeme → β → Prop} {lexemes : List Lexeme} (h : EndsWell derives lexemes)
    (before : List Lexeme)
    (hprepend : ∀ lexemes value, derives lexemes value →
      ∃ value', derives' (before ++ lexemes) value') :
    EndsWell derives' (before ++ lexemes) := by
  obtain ⟨front, last, rfl, hlast, hnext⟩ := h
  refine ⟨before ++ front, last, (List.append_assoc _ _ _).symm, hlast, ?_⟩
  intro next hgrows
  obtain ⟨value, hvalue⟩ := hnext next hgrows
  rw [List.append_assoc]
  exact hprepend _ value hvalue

theorem EndsWell.imp {α β : Type} {derives : List Lexeme → α → Prop}
    {derives' : List Lexeme → β → Prop} {lexemes : List Lexeme} (h : EndsWell derives lexemes)
    (himp : ∀ lexemes value, derives lexemes value → ∃ value', derives' lexemes value') :
    EndsWell derives' lexemes :=
  h.prepend [] himp

/-- A closing grows into nothing. -/
theorem endsWell_closing {α : Type} {derives : List Lexeme → α → Prop} (front : List Lexeme)
    {sign : Symbol} (hsign : sign ∈ [.closeParen, .closeBracket, .closeBrace]) :
    EndsWell derives (front ++ [.symbol sign]) := by
  refine ⟨front, .symbol sign, rfl, ?_, fun next hgrows => ?_⟩
  · revert sign
    decide
  · simp only [List.mem_cons, List.not_mem_nil, or_false] at hsign
    obtain rfl | rfl | rfl := hsign <;> cases hgrows

theorem DerivesModifier.endsWell {lexemes : List Lexeme} {modifier : Modifier}
    (h : DerivesModifier lexemes modifier) : EndsWell DerivesModifier lexemes := by
  obtain ⟨sign, build, amount, n, hform, hn, rfl, rfl⟩ | ⟨sign, build, digits, hform, rfl, rfl⟩ |
    ⟨word, rfl, rfl⟩ := h.form
  · cases hn with
    | absent =>
      refine ⟨[], .symbol sign, rfl, ?_, fun next hgrows => ?_⟩
      · cases sign <;> first | rfl | cases hform
      · obtain ⟨rfl, rfl⟩ | ⟨rfl, rfl⟩ := eq_symbol_of_grows hgrows
        · exact ⟨_, .explodeAgain .absent⟩
        · exact ⟨_, .explodeEachAgain .absent⟩
    | present digits =>
      refine ⟨[.symbol sign], .number digits, rfl, rfl, ?_⟩
      intro next hgrows
      obtain ⟨longer, rfl⟩ := eq_number_of_grows hgrows
      exact ⟨_, derivesModifier_of_optional hform (.present longer)⟩
  · refine ⟨[.symbol sign], .number digits, rfl, rfl, ?_⟩
    intro next hgrows
    obtain ⟨longer, rfl⟩ := eq_number_of_grows hgrows
    exact ⟨_, derivesModifier_of_required hform longer⟩
  · exact ⟨[], .keyword word, rfl, rfl, fun next hgrows => by cases hgrows⟩

theorem DerivesSize.endsWell {size : Lexeme} {sides : Int} {label : Option Text}
    (h : DerivesSize size sides label) :
    CanEnd size = true ∧
      ∀ next, Grows size next = true → ∃ sides label, DerivesSize next sides label := by
  cases h with
  | number digits =>
    refine ⟨rfl, ?_⟩
    intro next hgrows
    obtain ⟨longer, rfl⟩ := eq_number_of_grows hgrows
    exact ⟨_, _, .number longer⟩
  | percent size =>
    refine ⟨rfl, ?_⟩
    intro next hgrows
    obtain ⟨larger, rfl⟩ := eq_percent_of_grows hgrows
    exact ⟨_, _, .percent larger⟩

theorem DerivesPool.endsWell {lexemes : List Lexeme} {dice : Pool}
    (h : DerivesPool lexemes dice) : EndsWell DerivesPool lexemes := by
  obtain ⟨marker, hcount, hsize, hchange⟩ := h
  cases hchange with
  | absent =>
    obtain ⟨hlast, hnext⟩ := hsize.endsWell
    rw [List.append_cons]
    refine ⟨_, _, rfl, hlast, ?_⟩
    intro next hgrows
    obtain ⟨_, _, hsize⟩ := hnext next hgrows
    rw [← List.append_cons]
    exact ⟨_, .pool marker hcount hsize .absent⟩
  | present hmodifier =>
    rw [List.append_cons, List.append_cons]
    apply hmodifier.endsWell.prepend _
    intro change modifier hchange
    rw [← List.append_cons, ← List.append_cons]
    exact ⟨_, .pool marker hcount hsize (.present hchange)⟩

theorem DerivesTerm.endsWell {lexemes : List Lexeme} {tree : Expression}
    (h : DerivesTerm lexemes tree) : EndsWell DerivesTerm lexemes := by
  cases h with
  | pool h => exact h.endsWell.imp fun _ _ hpool => ⟨_, .pool hpool⟩
  | number digits =>
    refine ⟨[], .number digits, rfl, rfl, ?_⟩
    intro next hgrows
    obtain ⟨longer, rfl⟩ := eq_number_of_grows hgrows
    exact ⟨_, .number longer⟩

theorem DerivesSum.endsWell {lexemes : List Lexeme} {tree : Expression}
    (h : DerivesSum lexemes tree) : EndsWell DerivesSum lexemes := by
  obtain h | ⟨sign, join, first, second, left, right, hjoin, hleft, hright, rfl, rfl⟩ := h.form
  · exact h.endsWell.imp fun _ _ hterm => ⟨_, .term hterm⟩
  · rw [List.append_cons]
    apply hright.endsWell.prepend _
    intro second right hright
    rw [← List.append_cons]
    exact ⟨_, hleft.join hjoin hright⟩

theorem DerivesGrouped.endsWell {lexemes : List Lexeme} {tree : Expression}
    (h : DerivesGrouped lexemes tree) : EndsWell DerivesGrouped lexemes := by
  cases h with
  | parenthesized h => exact endsWell_closing (.symbol .openParen :: _) (by simp)
  | sum h => exact h.endsWell.imp fun _ _ hsum => ⟨_, .sum hsum⟩

theorem DerivesTarget.endsWell {lexemes : List Lexeme} {tree : Expression}
    (h : DerivesTarget lexemes tree) : EndsWell DerivesTarget lexemes := by
  cases h with
  | high digits h | low digits h =>
    rw [List.append_cons, List.append_cons]
    exact endsWell_closing _ (by simp)
  | grouped h => exact h.endsWell.imp fun _ _ hgrouped => ⟨_, .grouped hgrouped⟩

theorem DerivesSuccess.endsWell {lexemes : List Lexeme} {tree : Expression}
    (h : DerivesSuccess lexemes tree) : EndsWell DerivesSuccess lexemes := by
  cases h with
  | stepped digits stepDigits h hstep =>
    rw [List.append_cons, List.append_cons, List.append_cons, List.append_cons]
    exact endsWell_closing _ (by simp)
  | single digits h =>
    rw [List.append_cons, List.append_cons]
    exact endsWell_closing _ (by simp)
  | target h => exact h.endsWell.imp fun _ _ htarget => ⟨_, .target htarget⟩

theorem DerivesComparison.endsWell {lexemes : List Lexeme} {tree : Expression}
    (h : DerivesComparison lexemes tree) : EndsWell DerivesComparison lexemes := by
  cases h with
  | related relation hleft hright =>
    rw [List.append_cons]
    apply hright.endsWell.prepend _
    intro second right hright
    rw [← List.append_cons]
    exact ⟨_, .related relation hleft hright⟩
  | success h => exact h.endsWell.imp fun _ _ hsuccess => ⟨_, .success hsuccess⟩

theorem DerivesComparison.ne_nil {lexemes : List Lexeme} {tree : Expression}
    (h : DerivesComparison lexemes tree) : lexemes ≠ [] := by
  obtain ⟨front, last, rfl, -, -⟩ := h.endsWell
  exact List.append_ne_nil_of_right_ne_nil _ (List.cons_ne_nil _ _)

end DiceNotation.Grammar
