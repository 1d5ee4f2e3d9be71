import DiceNotation.Proofs.Lexing.Words

/-!
# Kinds of tokens

A token is of the kind that its text says. The texts of each kind are given here once more, without
the order in which the words are tried. No text belongs to two kinds, and a kind and a text together
leave a single lexeme.
-/

namespace DiceNotation

inductive Kind where
  | number
  | keyword
  | die
  | percent
  | symbol
  | unknown
  | finish
deriving DecidableEq

def Lexeme.kind : Lexeme → Kind
  | .number _ => .number
  | .keyword _ => .keyword
  | .die _ => .die
  | .percent _ => .percent
  | .symbol _ => .symbol
  | .unknown _ => .unknown
  | .finish => .finish

/-- The words of the kinds that have finitely many. -/
def Kind.spellings : Kind → List Text
  | .keyword => [['A', 'D', 'V'], ['D', 'I', 'S'], ['Y']]
  | .die => [['d'], ['D']]
  | .percent => [['%'], ['%', '%'], ['%', '%', '%']]
  | .symbol =>
    [['!'], ['!', '!'], ['*'], ['*', '*'], ['+'], ['+', '+'], ['-'], ['-', '-'], ['<'], ['<', '='],
      ['<', '=', '>'], ['>'], ['>', '='], ['='], ['~'], ['^'], ['\x60'], ['('], [')'], ['['], [']'],
      ['\x7b'], ['\x7d'], [',']]
  | .number | .unknown | .finish => []

namespace Text

def IsWordOf (text : Text) (kind : Kind) : Prop :=
  text ∈ kind.spellings ∨ kind = .number ∧ text ≠ [] ∧ ∀ c ∈ text, isDigit c = true

def IsWord (text : Text) : Prop := ∃ kind, text.IsWordOf kind

/-- Besides the words, any other character that is no blank is a token of its own. -/
def IsTokenOf (text : Text) (kind : Kind) : Prop :=
  text.IsWordOf kind ∨ kind = .unknown ∧ ¬ text.IsWord ∧ ∃ c, text = [c] ∧ isBlank c = false

end Text

namespace Lexeme

theorem mem_spellings_of_mem_fixed : ∀ word ∈ fixed, word.text ∈ word.kind.spellings := by
  decide

theorem exists_mem_fixed (kind : Kind) :
    ∀ text ∈ kind.spellings, ∃ word ∈ fixed, word.kind = kind ∧ word.text = text := by
  cases kind <;> decide

theorem IsWord.isWordOf {word : Lexeme} (h : word.IsWord) : word.text.IsWordOf word.kind := by
  obtain ⟨digits, rfl, hdigits⟩ | hmem := h.cases
  · exact .inr ⟨rfl, hdigits⟩
  · exact .inl (mem_spellings_of_mem_fixed word hmem)

theorem exists_of_isWordOf {text : Text} {kind : Kind} (h : text.IsWordOf kind) :
    ∃ word : Lexeme, word.IsWord ∧ word.kind = kind ∧ word.text = text := by
  obtain hmem | ⟨rfl, hdigits⟩ := h
  · obtain ⟨word, hword, hkind, htext⟩ := exists_mem_fixed kind text hmem
    exact ⟨word, isWord_of_mem_fixed hword, hkind, htext⟩
  · exact ⟨.number text, hdigits, rfl, rfl⟩

theorem isWord_iff {lexeme : Lexeme} : lexeme.IsWord ↔ lexeme.text.IsWordOf lexeme.kind := by
  refine ⟨IsWord.isWordOf, fun h => ?_⟩
  obtain hmem | ⟨hkind, hdigits⟩ := h
  · cases lexeme with
    | keyword word => exact isWord_keyword word
    | die marker =>
      have hmarker : marker = 'd' ∨ marker = 'D' := by
        simpa [kind, Kind.spellings, text] using hmem
      obtain rfl | rfl := hmarker <;> exact isWord_of_mem_fixed (by decide)
    | percent size => exact isWord_of_mem_fixed (percent_mem_fixed size)
    | symbol sign => exact isWord_symbol sign
    | number _ | unknown _ | finish => exact absurd hmem List.not_mem_nil
  · cases lexeme with
    | number digits => exact hdigits
    | _ => cases hkind

theorem Longest.isTokenOf {text : Text} {lexeme : Lexeme} (h : Longest text lexeme)
    (hhead : ∀ c ∈ text.head?, Text.isBlank c = false) :
    lexeme.text.IsTokenOf lexeme.kind := by
  obtain ⟨hword, -, -⟩ | ⟨c, rfl, hc, hnone⟩ := h
  · exact .inl hword.isWordOf
  · refine .inr ⟨rfl, ?_, c, rfl, hhead c hc⟩
    rintro ⟨kind, hkind⟩
    obtain ⟨word, hword, -, htext⟩ := exists_of_isWordOf hkind
    obtain ⟨rest, rfl⟩ := List.head?_eq_some_iff.mp hc
    apply hnone word hword
    rw [htext]
    exact ⟨rest, rfl⟩

/-- No longer beginning of the text is a word. -/
theorem Longest.not_isWord {text front : Text} {lexeme : Lexeme} (h : Longest text lexeme)
    (hfront : front <+: text) (hlength : lexeme.text.length < front.length) : ¬ front.IsWord := by
  rintro ⟨kind, hkind⟩
  obtain ⟨word, hword, -, rfl⟩ := exists_of_isWordOf hkind
  obtain ⟨-, -, hlongest⟩ | ⟨_, _, _, hnone⟩ := h
  · exact Nat.not_le.mpr hlength (hlongest word hword hfront)
  · exact hnone word hword hfront

theorem eq_of_isTokenOf {lexeme other : Lexeme} (h : lexeme.text.IsTokenOf lexeme.kind)
    (hother : other.text.IsTokenOf other.kind) (htext : lexeme.text = other.text) :
    lexeme = other := by
  obtain hword | ⟨hkind, hnot, -⟩ := h
  · obtain hword' | ⟨-, hnot, -⟩ := hother
    · exact (isWord_iff.mpr hword).eq_of_text_eq (isWord_iff.mpr hword') htext
    · exact absurd ⟨_, htext ▸ hword⟩ hnot
  · obtain hword' | ⟨hkind', -, -⟩ := hother
    · exact absurd ⟨_, htext ▸ hword'⟩ hnot
    · cases lexeme <;> cases hkind
      cases other <;> cases hkind'
      exact congrArg unknown (List.singleton_inj.mp htext)

theorem exists_of_isTokenOf {text : Text} {kind : Kind} (h : text.IsTokenOf kind) :
    ∃ lexeme : Lexeme, lexeme.kind = kind ∧ lexeme.text = text := by
  obtain hword | ⟨rfl, -, c, rfl, -⟩ := h
  · obtain ⟨word, -, hkind, htext⟩ := exists_of_isWordOf hword
    exact ⟨word, hkind, htext⟩
  · exact ⟨.unknown c, rfl, rfl⟩

end Lexeme

theorem Text.IsTokenOf.isBlank {text : Text} {kind : Kind} (h : text.IsTokenOf kind) :
    ∀ c ∈ text, isBlank c = false := by
  obtain hkind | ⟨-, -, c, rfl, hc⟩ := h
  · obtain ⟨word, hword, -, rfl⟩ := Lexeme.exists_of_isWordOf hkind
    exact hword.isBlank
  · simpa using hc

theorem Text.IsTokenOf.unique {text : Text} {kind other : Kind} (h : text.IsTokenOf kind)
    (hother : text.IsTokenOf other) : kind = other := by
  obtain ⟨lexeme, rfl, rfl⟩ := Lexeme.exists_of_isTokenOf h
  obtain ⟨lexeme', rfl, htext⟩ := Lexeme.exists_of_isTokenOf hother
  rw [← htext] at hother
  rw [Lexeme.eq_of_isTokenOf h hother htext.symm]

end DiceNotation
