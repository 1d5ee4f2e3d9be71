import DiceNotation.Expression.Printer
import DiceNotation.Reading

/-!
# Faults

The causes for which an operation has no result. A cause whose message would show a number that
is too long to be written is raised as that fault of writing instead.
-/

namespace DiceNotation

inductive PoolFault where
  | negativeCount (count : Int)
  | noSides (sides : Int)
  | tooManyDice (count limit : Int)
  | tooManySides (sides limit : Int)
  /-- Every face of the die reaches the threshold of an explosion that goes on. -/
  | endless (pool : Pool) (threshold : Int)
deriving DecidableEq

inductive SourceFault where
  | exhausted (supplied : Nat)
  | misfit (face sides : Int)
  | noFace (sides : Int)
deriving DecidableEq

inductive TallyFault where
  | noMinimum
  | noMaximum
  | noSamples
  /-- A share is beyond all numbers of its format. -/
  | hugeShare
  /-- The number of stars in a bar is no number of 64 bits. -/
  | hugeBar
deriving DecidableEq

/-- The two kinds of repetition, for counts that are too small. -/
inductive Repetition where
  | run
  | sample
deriving DecidableEq

inductive Fault where
  | numeral (fault : NumeralFault)
  | incomplete (reading : Reading)
  | pool (fault : PoolFault)
  | source (fault : SourceFault)
  /-- A success level has no step. -/
  | zeroStep
  /-- An expression is missing where one is evaluated. -/
  | gap
  | tooFew (repetition : Repetition) (count : Int)
  | tally (fault : TallyFault)
  | blankCount
  | blankSeed
  | unknownLevel (level : Text)
deriving DecidableEq

namespace PoolFault

def message : PoolFault → Text
  | .negativeCount count => "Die count cannot be negative: ".toList ++ Numeral.text count
  | .noSides sides => "Dice need at least one side: d".toList ++ Numeral.text sides
  | .tooManyDice count limit =>
    "Too many dice: ".toList ++ Numeral.text count ++ " (max ".toList ++ Numeral.text limit
      ++ [')']
  | .tooManySides sides limit =>
    "Too many sides: ".toList ++ Numeral.text sides ++ " (max ".toList ++ Numeral.text limit
      ++ [')']
  | .endless pool threshold =>
    pool.text ++ " would reroll forever: every face meets threshold ".toList
      ++ Numeral.text threshold

def numbers : PoolFault → List Int
  | .negativeCount n | .noSides n => [n]
  | .tooManyDice n limit | .tooManySides n limit => [n, limit]
  | .endless pool threshold => pool.numbers ++ [threshold]

end PoolFault

namespace SourceFault

def message : SourceFault → Text
  | .exhausted supplied =>
    "Fixed random source exhausted after ".toList ++ Numeral.text supplied ++ " rolls".toList
  | .misfit face sides =>
    "Fixed face ".toList ++ Numeral.text face ++ " is not a valid roll of a d".toList
      ++ Numeral.text sides
  | .noFace sides =>
    "empty range for randrange() (1, ".toList ++ Numeral.text (sides + 1) ++ [',', ' ']
      ++ Numeral.text sides ++ [')']

def numbers : SourceFault → List Int
  | .exhausted supplied => [supplied]
  | .misfit face sides => [face, sides]
  | .noFace sides => [sides + 1, sides]

end SourceFault

def TallyFault.message : TallyFault → Text
  | .noMinimum => "min() arg is an empty sequence".toList
  | .noMaximum => "max() arg is an empty sequence".toList
  | .noSamples => "division by zero".toList
  | .hugeShare => "integer division result too large for a float".toList
  | .hugeBar => "cannot fit 'int' into an index-sized integer".toList

def Repetition.message (count : Int) : Repetition → Text
  | .run => "Run count must be at least 1, got ".toList ++ Numeral.text count
  | .sample => "Sample count must be at least 1, got ".toList ++ Numeral.text count

def Reading.incompleteMessage (reading : Reading) : Text :=
  let rest := Text.quoted (reading.remainder.getD [])
  (match reading.expression with
    | none => "Could not parse ".toList ++ rest
    | some _ =>
      "Parsed ".toList ++ Text.quoted reading.consumed ++ " but could not parse ".toList ++ rest)
    ++ (reading.reason.map fun reason => [':', ' '] ++ reason.message).getD []

namespace Fault

def message : Fault → Text
  | .numeral fault => fault.message
  | .incomplete reading => reading.incompleteMessage
  | .pool fault => fault.message
  | .source fault => fault.message
  | .zeroStep => "integer division or modulo by zero".toList
  | .gap => "Not an expression: None".toList
  | .tooFew repetition count => repetition.message count
  | .tally fault => fault.message
  | .blankCount => "'<' not supported between instances of 'list' and 'int'".toList
  | .blankSeed =>
    "The only supported seed types are: None,\nint, float, str, bytes, and bytearray.".toList
  | .unknownLevel level => "Unknown level: ".toList ++ Text.quoted level

/-- The numbers of any size that the message shows. -/
def numbers : Fault → List Int
  | .pool fault => fault.numbers
  | .source fault => fault.numbers
  | .tooFew _ count => [count]
  | .numeral _ | .incomplete _ | .zeroStep | .gap | .tally _ | .blankCount | .blankSeed
  | .unknownLevel _ => []

/-- The fault that a cause amounts to: itself, if its message can be written. -/
def raised (fault : Fault) : Fault :=
  if fault.numbers.all Numeral.fits then fault else .numeral .unwritable

theorem raised_of_fits {fault : Fault} (h : ∀ n ∈ fault.numbers, Numeral.fits n = true) :
    fault.raised = fault :=
  if_pos (List.all_eq_true.mpr h)

end Fault

/-- The expression that the whole text stands for. -/
def readWhole (text : Text) : Except Fault Expression := do
  let reading ← (read text).mapError .numeral
  match reading.expression, reading.remainder with
  | some expression, none => return expression
  | _, _ => throw (.incomplete reading)

end DiceNotation
