import DiceNotation.Text.Digit
import DiceNotation.Expression

/-!
# Lexemes

The words of dice notation. Apart from numbers, whose digits may be of any script and in any
number, all words are listed in `fixed`, and a text that begins with none of them begins with a
character that is no word. The list is ordered so that a word comes before its own beginnings;
hence the first that matches is the longest.
-/

namespace DiceNotation

inductive Keyword where
  | advantage
  | disadvantage
  | bestGroup
deriving DecidableEq

/-- Markers for the die sizes that are powers of ten. -/
inductive Percentile where
  | hundred
  | thousand
  | tenThousand
deriving DecidableEq

inductive Symbol where
  | spaceship
  | twoBangs
  | twoStars
  | twoPluses
  | twoMinuses
  | lessEqual
  | greaterEqual
  | bang
  | star
  | tilde
  | caret
  | backquote
  | plus
  | minus
  | less
  | greater
  | equals
  | openParen
  | closeParen
  | openBracket
  | closeBracket
  | openBrace
  | closeBrace
  | comma
deriving DecidableEq

inductive Lexeme where
  | number (digits : Text)
  | keyword (word : Keyword)
  | die (marker : Char)
  | percent (size : Percentile)
  | symbol (sign : Symbol)
  /-- A character that begins no word. -/
  | unknown (char : Char)
  | finish
deriving DecidableEq

def Keyword.text : Keyword → Text
  | .advantage => ['A', 'D', 'V']
  | .disadvantage => ['D', 'I', 'S']
  | .bestGroup => ['Y']

def Keyword.modifier : Keyword → Modifier
  | .advantage => .advantage
  | .disadvantage => .disadvantage
  | .bestGroup => .bestGroup

def Percentile.text : Percentile → Text
  | .hundred => ['%']
  | .thousand => ['%', '%']
  | .tenThousand => ['%', '%', '%']

def Percentile.sides : Percentile → Int
  | .hundred => 100
  | .thousand => 1000
  | .tenThousand => 10000

namespace Symbol

def text : Symbol → Text
  | .spaceship => ['<', '=', '>']
  | .twoBangs => ['!', '!']
  | .twoStars => ['*', '*']
  | .twoPluses => ['+', '+']
  | .twoMinuses => ['-', '-']
  | .lessEqual => ['<', '=']
  | .greaterEqual => ['>', '=']
  | .bang => ['!']
  | .star => ['*']
  | .tilde => ['~']
  | .caret => ['^']
  | .backquote => ['\x60']
  | .plus => ['+']
  | .minus => ['-']
  | .less => ['<']
  | .greater => ['>']
  | .equals => ['=']
  | .openParen => ['(']
  | .closeParen => [')']
  | .openBracket => ['[']
  | .closeBracket => [']']
  | .openBrace => ['\x7b']
  | .closeBrace => ['\x7d']
  | .comma => [',']

def relation? : Symbol → Option Relation
  | .greater => some .greater
  | .less => some .less
  | .greaterEqual => some .atLeast
  | .lessEqual => some .atMost
  | .equals => some .equal
  | .spaceship => some .order
  | _ => none

end Symbol

def Relation.symbol : Relation → Symbol
  | .greater => .greater
  | .less => .less
  | .atLeast => .greaterEqual
  | .atMost => .lessEqual
  | .equal => .equals
  | .order => .spaceship

theorem Symbol.relation?_eq_some_iff (symbol : Symbol) (relation : Relation) :
    symbol.relation? = some relation ↔ symbol = relation.symbol := by
  cases symbol <;> cases relation <;> decide

namespace Lexeme

def text : Lexeme → Text
  | .number digits => digits
  | .keyword word => word.text
  | .die marker => [marker]
  | .percent size => size.text
  | .symbol sign => sign.text
  | .unknown char => [char]
  | .finish => []

/-- The words that are spelled in one way. -/
def fixed : List Lexeme :=
  [.keyword .advantage, .keyword .disadvantage, .keyword .bestGroup, .die 'd', .die 'D',
    .percent .tenThousand, .percent .thousand, .percent .hundred, .symbol .spaceship,
    .symbol .twoBangs, .symbol .twoStars, .symbol .twoPluses, .symbol .twoMinuses,
    .symbol .lessEqual, .symbol .greaterEqual, .symbol .bang, .symbol .star, .symbol .tilde,
    .symbol .caret, .symbol .backquote, .symbol .plus, .symbol .minus, .symbol .less,
    .symbol .greater, .symbol .equals, .symbol .openParen, .symbol .closeParen,
    .symbol .openBracket, .symbol .closeBracket, .symbol .openBrace, .symbol .closeBrace,
    .symbol .comma]

/-- The first word of a text that starts with `c`, no matter whether a longer text follows. -/
def first (c : Char) (rest : Text) : Lexeme :=
  if Text.isDigit c then .number (c :: rest.takeWhile Text.isDigit)
  else (fixed.find? fun lexeme => lexeme.text.isPrefixOf (c :: rest)).getD (.unknown c)

theorem text_ne_nil_of_mem_fixed : ∀ lexeme ∈ fixed, lexeme.text ≠ [] := by
  decide

theorem text_first_ne_nil (c : Char) (rest : Text) : (first c rest).text ≠ [] := by
  unfold first
  split
  · simp [text]
  · cases h : fixed.find? fun lexeme => lexeme.text.isPrefixOf (c :: rest) with
    | none => simp [text]
    | some lexeme => exact text_ne_nil_of_mem_fixed lexeme (List.mem_of_find?_eq_some h)

theorem text_first_isPrefix (c : Char) (rest : Text) : (first c rest).text <+: c :: rest := by
  unfold first
  split
  · exact List.prefix_cons_inj c |>.mpr (List.takeWhile_prefix _)
  · cases h : fixed.find? fun lexeme => lexeme.text.isPrefixOf (c :: rest) with
    | none => simp [text]
    | some lexeme =>
      have := List.find?_some h
      exact List.isPrefixOf_iff_prefix.mp this

end Lexeme

end DiceNotation
