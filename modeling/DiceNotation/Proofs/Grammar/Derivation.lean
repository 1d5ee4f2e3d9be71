import DiceNotation.Reading.Grammar

/-!
# Derivations

The grammar as a relation between the lexemes of a phrase and what the phrase stands for. It says
nothing about the order in which lexemes are looked at, and it has numbers of any length. The rule
for sums is recursive on the left, so terms are joined from the left.
-/

namespace DiceNotation

namespace Grammar

inductive DerivesOptional : List Lexeme → Option Int → Prop where
  | absent : DerivesOptional [] none
  | present (digits : Text) : DerivesOptional [.number digits] (some (Numeral.value digits))

inductive DerivesModifier : List Lexeme → Modifier → Prop where
  | explode {amount : List Lexeme} {threshold : Option Int} :
      DerivesOptional amount threshold →
      DerivesModifier (.symbol .bang :: amount) (.explode threshold false)
  | explodeAgain {amount : List Lexeme} {threshold : Option Int} :
      DerivesOptional amount threshold →
      DerivesModifier (.symbol .twoBangs :: amount) (.explode threshold true)
  | explodeEach {amount : List Lexeme} {threshold : Option Int} :
      DerivesOptional amount threshold →
      DerivesModifier (.symbol .star :: amount) (.explodeEach threshold false)
  | explodeEachAgain {amount : List Lexeme} {threshold : Option Int} :
      DerivesOptional amount threshold →
      DerivesModifier (.symbol .twoStars :: amount) (.explodeEach threshold true)
  | addEach {amount : List Lexeme} {n : Option Int} :
      DerivesOptional amount n →
      DerivesModifier (.symbol .twoPluses :: amount) (.addEach (n.getD 1))
  | subtractEach {amount : List Lexeme} {n : Option Int} :
      DerivesOptional amount n →
      DerivesModifier (.symbol .twoMinuses :: amount) (.subtractEach (n.getD 1))
  | takeLow (digits : Text) :
      DerivesModifier [.symbol .backquote, .number digits] (.takeLow (Numeral.value digits))
  | takeHigh (digits : Text) :
      DerivesModifier [.symbol .caret, .number digits] (.takeHigh (Numeral.value digits))
  | takeMiddle (digits : Text) :
      DerivesModifier [.symbol .tilde, .number digits] (.takeMiddle (Numeral.value digits))
  | advantage : DerivesModifier [.keyword .advantage] .advantage
  | disadvantage : DerivesModifier [.keyword .disadvantage] .disadvantage
  | bestGroup : DerivesModifier [.keyword .bestGroup] .bestGroup

inductive DerivesSize : Lexeme → Int → Option Text → Prop where
  | number (digits : Text) : DerivesSize (.number digits) (Numeral.value digits) none
  | percent (size : Percentile) : DerivesSize (.percent size) size.sides (some size.text)

inductive DerivesChange : List Lexeme → Option Modifier → Prop where
  | absent : DerivesChange [] none
  | present {lexemes : List Lexeme} {modifier : Modifier} :
      DerivesModifier lexemes modifier → DerivesChange lexemes (some modifier)

inductive DerivesPool : List Lexeme → Pool → Prop where
  | pool {number change : List Lexeme} {count : Option Int} {size : Lexeme} {sides : Int}
      {label : Option Text} {modifier : Option Modifier} (marker : Char) :
      DerivesOptional number count → DerivesSize size sides label →
      DerivesChange change modifier →
      DerivesPool (number ++ .die marker :: size :: change)
        ⟨count.getD 1, sides, modifier, label⟩

inductive DerivesTerm : List Lexeme → Expression → Prop where
  | pool {lexemes : List Lexeme} {dice : Pool} :
      DerivesPool lexemes dice → DerivesTerm lexemes (.pool dice)
  | number (digits : Text) : DerivesTerm [.number digits] (.number (Numeral.value digits))

inductive DerivesSum : List Lexeme → Expression → Prop where
  | term {lexemes : List Lexeme} {tree : Expression} :
      DerivesTerm lexemes tree → DerivesSum lexemes tree
  | plus {first second : List Lexeme} {left right : Expression} :
      DerivesSum first left → DerivesTerm second right →
      DerivesSum (first ++ .symbol .plus :: second) (.sum left right)
  | minus {first second : List Lexeme} {left right : Expression} :
      DerivesSum first left → DerivesTerm second right →
      DerivesSum (first ++ .symbol .minus :: second) (.difference left right)

inductive DerivesGrouped : List Lexeme → Expression → Prop where
  | parenthesized {lexemes : List Lexeme} {tree : Expression} :
      DerivesSum lexemes tree →
      DerivesGrouped (.symbol .openParen :: (lexemes ++ [.symbol .closeParen])) tree
  | sum {lexemes : List Lexeme} {tree : Expression} :
      DerivesSum lexemes tree → DerivesGrouped lexemes tree

inductive DerivesTarget : List Lexeme → Expression → Prop where
  | high {lexemes : List Lexeme} {tree : Expression} (digits : Text) :
      DerivesGrouped lexemes tree →
      DerivesTarget (lexemes ++ [.symbol .openBracket, .number digits, .symbol .closeBracket])
        (.target tree .high (Numeral.value digits))
  | low {lexemes : List Lexeme} {tree : Expression} (digits : Text) :
      DerivesGrouped lexemes tree →
      DerivesTarget (lexemes ++ [.symbol .openParen, .number digits, .symbol .closeParen])
        (.target tree .low (Numeral.value digits))
  | grouped {lexemes : List Lexeme} {tree : Expression} :
      DerivesGrouped lexemes tree → DerivesTarget lexemes tree

inductive DerivesSuccess : List Lexeme → Expression → Prop where
  | stepped {lexemes : List Lexeme} {tree : Expression} (digits stepDigits : Text) :
      DerivesTarget lexemes tree → 1 ≤ Numeral.value stepDigits →
      DerivesSuccess
        (lexemes ++ [.symbol .openBrace, .number digits, .symbol .comma, .number stepDigits,
          .symbol .closeBrace])
        (.success tree (Numeral.value digits) (Numeral.value stepDigits))
  | single {lexemes : List Lexeme} {tree : Expression} (digits : Text) :
      DerivesTarget lexemes tree →
      DerivesSuccess (lexemes ++ [.symbol .openBrace, .number digits, .symbol .closeBrace])
        (.success tree (Numeral.value digits) 1)
  | target {lexemes : List Lexeme} {tree : Expression} :
      DerivesTarget lexemes tree → DerivesSuccess lexemes tree

inductive DerivesComparison : List Lexeme → Expression → Prop where
  | related {first second : List Lexeme} {left right : Expression} (relation : Relation) :
      DerivesSuccess first left → DerivesSuccess second right →
      DerivesComparison (first ++ .symbol relation.symbol :: second)
        (.comparison left relation right)
  | success {lexemes : List Lexeme} {tree : Expression} :
      DerivesSuccess lexemes tree → DerivesComparison lexemes tree

/-! ### The tables of symbols -/

theorem derivesModifier_of_optional {sign : Symbol} {build : Option Int → Modifier}
    {amount : List Lexeme} {n : Option Int}
    (hform : sign.modifierForm? = some (.optionalNumber build)) (hn : DerivesOptional amount n) :
    DerivesModifier (.symbol sign :: amount) (build n) := by
  cases sign <;> cases hform
  · exact .explodeAgain hn
  · exact .explodeEachAgain hn
  · exact .addEach hn
  · exact .subtractEach hn
  · exact .explode hn
  · exact .explodeEach hn

theorem derivesModifier_of_required {sign : Symbol} {build : Int → Modifier}
    (hform : sign.modifierForm? = some (.requiredNumber build)) (digits : Text) :
    DerivesModifier [.symbol sign, .number digits] (build (Numeral.value digits)) := by
  cases sign <;> cases hform
  · exact .takeMiddle digits
  · exact .takeHigh digits
  · exact .takeLow digits

theorem derivesModifier_of_keyword (word : Keyword) :
    DerivesModifier [.keyword word] word.modifier := by
  cases word
  · exact .advantage
  · exact .disadvantage
  · exact .bestGroup

/-- A modifier is a symbol with its optional number, a symbol with its number, or a keyword. -/
theorem DerivesModifier.form {lexemes : List Lexeme} {modifier : Modifier}
    (h : DerivesModifier lexemes modifier) :
    (∃ sign build amount n, sign.modifierForm? = some (.optionalNumber build) ∧
      DerivesOptional amount n ∧ lexemes = .symbol sign :: amount ∧ modifier = build n) ∨
    (∃ sign build digits, sign.modifierForm? = some (.requiredNumber build) ∧
      lexemes = [.symbol sign, .number digits] ∧ modifier = build (Numeral.value digits)) ∨
    ∃ word : Keyword, lexemes = [.keyword word] ∧ modifier = word.modifier := by
  cases h with
  | explode hn | explodeAgain hn | explodeEach hn | explodeEachAgain hn | addEach hn
  | subtractEach hn => exact .inl ⟨_, _, _, _, rfl, hn, rfl, rfl⟩
  | takeLow digits | takeHigh digits | takeMiddle digits =>
    exact .inr (.inl ⟨_, _, digits, rfl, rfl, rfl⟩)
  | advantage => exact .inr (.inr ⟨.advantage, rfl, rfl⟩)
  | disadvantage => exact .inr (.inr ⟨.disadvantage, rfl, rfl⟩)
  | bestGroup => exact .inr (.inr ⟨.bestGroup, rfl, rfl⟩)

theorem DerivesSum.join {sign : Symbol} {join : Expression → Expression → Expression}
    {first second : List Lexeme} {left right : Expression} (hjoin : sign.join? = some join)
    (hleft : DerivesSum first left) (hright : DerivesTerm second right) :
    DerivesSum (first ++ .symbol sign :: second) (join left right) := by
  cases sign <;> cases hjoin
  · exact .plus hleft hright
  · exact .minus hleft hright

/-- A sum is a term, or a shorter sum that a sign joins to a term. -/
theorem DerivesSum.form {lexemes : List Lexeme} {tree : Expression}
    (h : DerivesSum lexemes tree) :
    DerivesTerm lexemes tree ∨
      ∃ sign join first second left right, Symbol.join? sign = some join ∧
        DerivesSum first left ∧ DerivesTerm second right ∧
        lexemes = first ++ .symbol sign :: second ∧ tree = join left right := by
  cases h with
  | term h => exact .inl h
  | plus hleft hright => exact .inr ⟨.plus, _, _, _, _, _, rfl, hleft, hright, rfl, rfl⟩
  | minus hleft hright => exact .inr ⟨.minus, _, _, _, _, _, rfl, hleft, hright, rfl, rfl⟩

/-! ### How a phrase begins -/

/-- A term begins with a number or a die. -/
theorem DerivesTerm.head {lexemes : List Lexeme} {tree : Expression}
    (h : DerivesTerm lexemes tree) :
    (∃ digits rest, lexemes = .number digits :: rest) ∨
      ∃ marker rest, lexemes = .die marker :: rest := by
  cases h with
  | number digits => exact .inl ⟨digits, [], rfl⟩
  | pool h =>
    obtain ⟨marker, hcount, _, _⟩ := h
    cases hcount with
    | absent => exact .inr ⟨marker, _, rfl⟩
    | present digits => exact .inl ⟨digits, _, rfl⟩

theorem DerivesSum.head {lexemes : List Lexeme} {tree : Expression}
    (h : DerivesSum lexemes tree) :
    (∃ digits rest, lexemes = .number digits :: rest) ∨
      ∃ marker rest, lexemes = .die marker :: rest := by
  induction h with
  | term h => exact h.head
  | plus _ _ ih | minus _ _ ih =>
    obtain ⟨digits, rest, rfl⟩ | ⟨marker, rest, rfl⟩ := ih
    · exact .inl ⟨digits, _, rfl⟩
    · exact .inr ⟨marker, _, rfl⟩

end Grammar

end DiceNotation
