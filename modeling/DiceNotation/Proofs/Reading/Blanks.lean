import DiceNotation.Proofs.Lexing.Places
import DiceNotation.Proofs.Reading.Acceptance

/-!
# Blanks between tokens

Reading a text depends on its lexemes alone, apart from the two parts that it cuts from the text.
So blanks at the bounds of tokens change nothing else.
-/

namespace DiceNotation

open Grammar

theorem map_lexeme_tokenize (text : Text) :
    (tokenize text).map Token.lexeme = lexemes text ++ [.finish] := by
  rw [tokenize, List.map_append, ← lexemes_eq]
  rfl

theorem complete_ofTokens_iff {text : Text} {result : Option (Phrase Expression)}
    (h : comparison (lexemes text) = .ok result) :
    (Reading.ofTokens text (Token.scan 0 text) result).complete = true ↔
      ∃ phrase, result = some phrase ∧ phrase.rest = [] := by
  cases result with
  | none => simp [Reading.ofTokens, Reading.complete]
  | some phrase =>
    obtain ⟨used, hused, -, -⟩ := comparison_reads h
    rw [ofTokens_eq hused, Reading.complete_iff, remainderAfter_eq_none_iff hused]
    simp

/-- The two readings differ at most in the parts of the text that they hold. -/
structure Reading.IsAlike (one other : Reading) : Prop where
  expression : one.expression = other.expression
  reason : one.reason = other.reason
  complete : one.complete = other.complete

/-- Both texts are read alike, or both fail with the same fault. -/
inductive ReadsAlike : Except NumeralFault Reading → Except NumeralFault Reading → Prop where
  | fails (fault : NumeralFault) : ReadsAlike (.error fault) (.error fault)
  | reads {one other : Reading} : one.IsAlike other → ReadsAlike (.ok one) (.ok other)

theorem isAlike_ofTokens {text other : Text} {result : Option (Phrase Expression)}
    (h : lexemes text = lexemes other) (hresult : comparison (lexemes text) = .ok result) :
    (Reading.ofTokens text (Token.scan 0 text) result).IsAlike
      (Reading.ofTokens other (Token.scan 0 other) result) := by
  constructor
  case expression => cases result <;> rfl
  case reason => cases result <;> rfl
  case complete =>
    rw [Bool.eq_iff_iff, complete_ofTokens_iff hresult, complete_ofTokens_iff (h ▸ hresult)]

theorem readsAlike_of_lexemes_eq {text other : Text} (h : lexemes text = lexemes other) :
    ReadsAlike (read text) (read other) := by
  rw [read_eq, read_eq, ← h]
  cases hresult : comparison (lexemes text) with
  | error fault => exact .fails fault
  | ok result =>
    apply ReadsAlike.reads
    exact isAlike_ofTokens h hresult

/-- Blanks at a place where a token starts or ends leave the tokens as they are, and with them
everything that reading tells but for the parts of the text. -/
theorem read_insert_blanks {text blanks : Text} {k : Nat} (h : Token.IsBound text k)
    (hblanks : ∀ c ∈ blanks, Text.isBlank c = true) :
    (tokenize (text.take k ++ blanks ++ text.drop k)).map Token.lexeme =
        (tokenize text).map Token.lexeme ∧
      ReadsAlike (read text) (read (text.take k ++ blanks ++ text.drop k)) := by
  have hlexemes := lexemes_insert_blanks h hblanks
  constructor
  · rw [map_lexeme_tokenize, map_lexeme_tokenize, hlexemes]
  · exact readsAlike_of_lexemes_eq hlexemes.symm

theorem read_insert_blanks_explosion :
    Token.IsBound "3d4!!>x".toList 3 ∧ (∀ c ∈ "\u2003\n".toList, Text.isBlank c = true) ∧
      (tokenize "3d4\u2003\n!!>x".toList).map Token.lexeme =
        [.number "3".toList, .die 'd', .number "4".toList, .symbol .twoBangs, .symbol .greater,
          .unknown 'x', .finish] ∧
      ReadsAlike (read "3d4!!>x".toList) (read "3d4\u2003\n!!>x".toList) := by
  have htokens : tokenize "3d4!!>x".toList =
      [⟨.number "3".toList, 0⟩, ⟨.die 'd', 1⟩, ⟨.number "4".toList, 2⟩, ⟨.symbol .twoBangs, 3⟩,
        ⟨.symbol .greater, 5⟩, ⟨.unknown 'x', 6⟩, ⟨.finish, 7⟩] := by
    cbv
  have hbound : Token.IsBound "3d4!!>x".toList 3 := by
    refine ⟨⟨.symbol .twoBangs, 3⟩, ?_, .inl rfl⟩
    rw [htokens]
    decide
  have hblanks : ∀ c ∈ "\u2003\n".toList, Text.isBlank c = true :=
    List.all_eq_true.mp (by cbv)
  obtain ⟨hlexemes, hreads⟩ := read_insert_blanks hbound hblanks
  rw [htokens] at hlexemes
  exact ⟨hbound, hblanks, hlexemes, hreads⟩

end DiceNotation
