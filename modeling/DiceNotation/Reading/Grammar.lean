import DiceNotation.Lexeme
import DiceNotation.Numeral
import DiceNotation.Text.Quoted

/-!
# The grammar of dice notation

From the loosest binding to the tightest:

    comparison := success [relation success]
    success    := target ["{" number ["," number] "}"]
    target     := grouped ["[" number "]" | "(" number ")"]
    grouped    := "(" sum ")" | sum
    sum        := term {("+" | "-") term}
    term       := pool | number
    pool       := [number] die (number | percent) [modifier]

Each rule takes the longest phrase that it can from the front of a list of lexemes. Where a
phrase ends before an opening that could have continued it, the phrase tells the reason. A number
is read where the rule accepts it, so one that is too long is a fault only there.
-/

namespace DiceNotation

inductive Reason where
  | targetThreshold (side : Side)
  | successThreshold
  | successShape
  | successStep
  | keepCount (symbol : Symbol)
deriving DecidableEq

structure Phrase (α : Type) where
  value : α
  rest : List Lexeme
  reason : Option Reason := none
deriving DecidableEq

/-- How a symbol that begins a modifier goes on. -/
inductive ModifierForm where
  | optionalNumber (build : Option Int → Modifier)
  | requiredNumber (build : Int → Modifier)

def Symbol.modifierForm? : Symbol → Option ModifierForm
  | .bang => some (.optionalNumber (.explode · false))
  | .twoBangs => some (.optionalNumber (.explode · true))
  | .star => some (.optionalNumber (.explodeEach · false))
  | .twoStars => some (.optionalNumber (.explodeEach · true))
  | .twoPluses => some (.optionalNumber fun amount => .addEach (amount.getD 1))
  | .twoMinuses => some (.optionalNumber fun amount => .subtractEach (amount.getD 1))
  | .backquote => some (.requiredNumber .takeLow)
  | .caret => some (.requiredNumber .takeHigh)
  | .tilde => some (.requiredNumber .takeMiddle)
  | _ => none

def Symbol.join? : Symbol → Option (Expression → Expression → Expression)
  | .plus => some .sum
  | .minus => some .difference
  | _ => none

namespace Grammar

def number (digits : Text) : Except NumeralFault Int :=
  (Numeral.read digits).map Int.ofNat

def modifier : List Lexeme → Except NumeralFault (Phrase (Option Modifier))
  | .keyword word :: rest => .ok { value := some word.modifier, rest }
  | .symbol sign :: rest =>
    match sign.modifierForm?, rest with
    | some (.optionalNumber build), .number digits :: after => do
      return { value := some (build (some (← number digits))), rest := after }
    | some (.optionalNumber build), _ => .ok { value := some (build none), rest }
    | some (.requiredNumber build), .number digits :: after => do
      return { value := some (build (← number digits)), rest := after }
    | some (.requiredNumber _), _ =>
      .ok { value := none, rest := .symbol sign :: rest, reason := some (.keepCount sign) }
    | none, _ => .ok { value := none, rest := .symbol sign :: rest }
  | rest => .ok { value := none, rest }

/-- The pool whose count and size are read, with the modifier that follows. -/
def pool (count sides : Int) (label : Option Text) (rest : List Lexeme) :
    Except NumeralFault (Phrase Expression) := do
  let phrase ← modifier rest
  return { phrase with value := .pool ⟨count, sides, phrase.value, label⟩ }

def term : List Lexeme → Except NumeralFault (Option (Phrase Expression))
  | .number count :: .die _ :: .number sides :: rest => do
    return some (← pool (← number count) (← number sides) none rest)
  | .number count :: .die _ :: .percent size :: rest => do
    return some (← pool (← number count) size.sides (some size.text) rest)
  | .number digits :: rest => do
    return some { value := .number (← number digits), rest }
  | .die _ :: .number sides :: rest => do
    return some (← pool 1 (← number sides) none rest)
  | .die _ :: .percent size :: rest => do
    return some (← pool 1 size.sides (some size.text) rest)
  | _ => .ok none

/-- What a result that is bound to a function comes from. -/
theorem bind_eq_ok {ε α β : Type} {first : Except ε α} {next : α → Except ε β} {b : β} :
    first >>= next = .ok b ↔ ∃ a, first = .ok a ∧ next a = .ok b := by
  cases first <;> simp [bind, Except.bind]

theorem rest_modifier_suffix {lexemes : List Lexeme} {phrase : Phrase (Option Modifier)}
    (h : modifier lexemes = .ok phrase) : phrase.rest <:+ lexemes := by
  revert h
  fun_cases modifier lexemes <;> intro h
  case case2 sign _ digits _ _ =>
    obtain ⟨n, _, ⟨⟩⟩ := bind_eq_ok.mp h
    exact ⟨[.symbol sign, .number digits], rfl⟩
  case case4 sign _ digits _ _ =>
    obtain ⟨n, _, ⟨⟩⟩ := bind_eq_ok.mp h
    exact ⟨[.symbol sign, .number digits], rfl⟩
  all_goals
    cases h
    simp

theorem rest_pool_suffix {count sides : Int} {label : Option Text} {lexemes : List Lexeme}
    {phrase : Phrase Expression} (h : pool count sides label lexemes = .ok phrase) :
    phrase.rest <:+ lexemes := by
  obtain ⟨read, hread, ⟨⟩⟩ := bind_eq_ok.mp h
  exact rest_modifier_suffix hread

/-- A term takes at least one lexeme. -/
theorem rest_term_suffix {lexemes : List Lexeme} {phrase : Phrase Expression}
    (h : term lexemes = .ok (some phrase)) : phrase.rest <:+ lexemes.tail := by
  revert h
  fun_cases term lexemes <;> intro h
  case case1 count marker sides rest =>
    obtain ⟨c, _, h⟩ := bind_eq_ok.mp h
    obtain ⟨s, _, h⟩ := bind_eq_ok.mp h
    obtain ⟨dice, hdice, ⟨⟩⟩ := bind_eq_ok.mp h
    exact (rest_pool_suffix hdice).trans ⟨[.die marker, .number sides], rfl⟩
  case case2 count marker size rest =>
    obtain ⟨c, _, h⟩ := bind_eq_ok.mp h
    obtain ⟨dice, hdice, ⟨⟩⟩ := bind_eq_ok.mp h
    exact (rest_pool_suffix hdice).trans ⟨[.die marker, .percent size], rfl⟩
  case case3 digits rest _ _ =>
    obtain ⟨n, _, ⟨⟩⟩ := bind_eq_ok.mp h
    exact List.suffix_refl rest
  case case4 marker sides rest =>
    obtain ⟨s, _, h⟩ := bind_eq_ok.mp h
    obtain ⟨dice, hdice, ⟨⟩⟩ := bind_eq_ok.mp h
    exact (rest_pool_suffix hdice).trans (List.suffix_cons _ _)
  case case5 marker size rest =>
    obtain ⟨dice, hdice, ⟨⟩⟩ := bind_eq_ok.mp h
    exact (rest_pool_suffix hdice).trans (List.suffix_cons _ _)
  case case6 => cases h

theorem length_rest_term_lt {lexemes : List Lexeme} {phrase : Phrase Expression}
    (h : term lexemes = .ok (some phrase)) : phrase.rest.length < lexemes.length := by
  cases lexemes with
  | nil => cases h
  | cons _ rest => exact Nat.lt_succ_of_le (rest_term_suffix h).length_le

/-- Extends a sum to the right by as many terms as follow. -/
def sumFrom (left : Phrase Expression) : Except NumeralFault (Phrase Expression) :=
  match hl : left.rest with
  | .symbol sign :: rest =>
    match sign.join? with
    | none => .ok left
    | some join =>
      match ht : term rest with
      | .error fault => .error fault
      | .ok none => .ok left
      | .ok (some right) =>
        have : right.rest.length < left.rest.length := by
          simpa [hl] using Nat.lt_succ_of_lt (length_rest_term_lt ht)
        sumFrom { right with value := join left.value right.value }
  | _ => .ok left
termination_by left.rest.length

def sum (lexemes : List Lexeme) : Except NumeralFault (Option (Phrase Expression)) := do
  match ← term lexemes with
  | none => return none
  | some left => return some (← sumFrom left)

def grouped : List Lexeme → Except NumeralFault (Option (Phrase Expression))
  | .symbol .openParen :: rest => do
    match ← sum rest with
    | some ⟨value, .symbol .closeParen :: after, _⟩ => return some { value, rest := after }
    | _ => return none
  | lexemes => sum lexemes

/-- A target after the phrase, if one follows. -/
def targetFrom (inner : Phrase Expression) : Except NumeralFault (Phrase Expression) :=
  match inner.rest with
  | .symbol .openBracket :: .number digits :: .symbol .closeBracket :: rest => do
    return { value := .target inner.value .high (← number digits), rest }
  | .symbol .openParen :: .number digits :: .symbol .closeParen :: rest => do
    return { value := .target inner.value .low (← number digits), rest }
  | .symbol .openBracket :: _ => .ok { inner with reason := some (.targetThreshold .high) }
  | .symbol .openParen :: _ => .ok { inner with reason := some (.targetThreshold .low) }
  | _ => .ok inner

def target (lexemes : List Lexeme) : Except NumeralFault (Option (Phrase Expression)) := do
  match ← grouped lexemes with
  | none => return none
  | some inner => return some (← targetFrom inner)

/-- A success level after the phrase, if one follows. Its threshold is read before its shape is
looked at. -/
def successFrom (inner : Phrase Expression) : Except NumeralFault (Phrase Expression) :=
  match inner.rest with
  | .symbol .openBrace :: .number digits :: shape => do
    let threshold ← number digits
    match shape with
    | .symbol .closeBrace :: rest =>
      return { value := .success inner.value threshold 1, rest }
    | .symbol .comma :: .number stepDigits :: .symbol .closeBrace :: rest =>
      let step ← number stepDigits
      if step < 1 then return { inner with reason := some .successStep }
      else return { value := .success inner.value threshold step, rest }
    | _ => return { inner with reason := some .successShape }
  | .symbol .openBrace :: _ => .ok { inner with reason := some .successThreshold }
  | _ => .ok inner

def success (lexemes : List Lexeme) : Except NumeralFault (Option (Phrase Expression)) := do
  match ← target lexemes with
  | none => return none
  | some inner => return some (← successFrom inner)

/-- A relation with nothing to compare with on its right is left unread. -/
def comparison (lexemes : List Lexeme) : Except NumeralFault (Option (Phrase Expression)) := do
  match ← success lexemes with
  | none => return none
  | some left =>
    match left.rest with
    | .symbol sign :: rest =>
      match sign.relation? with
      | none => return some left
      | some relation =>
        match ← success rest with
        | none => return some left
        | some right =>
          return some { right with value := .comparison left.value relation right.value }
    | _ => return some left

end Grammar

namespace Reason

def message : Reason → Text
  | .targetThreshold .high => "Target needs a threshold, e.g. [5]".toList
  | .targetThreshold .low => "Target needs a threshold, e.g. (5)".toList
  | .successThreshold => "Success needs a threshold, e.g. \x7b7\x7d or \x7b7,3\x7d".toList
  | .successShape => "Malformed success threshold".toList
  | .successStep => "Success step must be at least 1, got 0".toList
  | .keepCount sign => Text.quoted sign.text ++ " needs a number of dice to keep".toList

end Reason

end DiceNotation
