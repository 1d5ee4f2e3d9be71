import DiceNotation.Numeral
import DiceNotation.Text.Blank

/-!
# Entered numbers

Whole numbers as they are entered on a command line: with space around them, a sign, single
underscores between digits, and digits of any script.
-/

namespace DiceNotation.Numeral

/-- The text without its underscores, each of which stands between two other characters. -/
def ungrouped? (text : Text) : Option Text :=
  let rec go : Text → Option Text
    | [] => some []
    | ['_'] => none
    | '_' :: '_' :: _ => none
    | '_' :: rest => go rest
    | c :: rest => (go rest).map (c :: ·)
  match text with
  | '_' :: _ => none
  | _ => go text

def splitSign : Text → Bool × Text
  | '-' :: rest => (true, rest)
  | '+' :: rest => (false, rest)
  | rest => (false, rest)

def withSign (negative : Bool) (n : Nat) : Int := if negative then -n else n

def ofArgument? (text : Text) : Option Int := do
  let (negative, body) := splitSign (Text.trim Text.isSpace text)
  let digits ← ungrouped? body
  if digits.isEmpty || !digits.all Text.isDigit then none
  else
    match read digits with
    | .ok n => some (withSign negative n)
    | .error _ => none

end DiceNotation.Numeral
