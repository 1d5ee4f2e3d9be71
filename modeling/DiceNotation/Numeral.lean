import DiceNotation.Text.Digit

/-!
# Numerals

Whole numbers as decimal text. Reading takes the digits of any script; writing uses the ASCII
ones. Neither direction handles more than `digitLimit` digits.
-/

namespace DiceNotation

inductive NumeralFault where
  /-- A run of digits is too long to be read; leading zeros count. -/
  | unreadable (digits : Nat)
  | unwritable
deriving DecidableEq

namespace Numeral

def digitLimit : Nat := 4300

/-- The least magnitude with more than `digitLimit` digits. -/
def bound : Nat := Nat.pow 10 digitLimit

def fits (n : Int) : Bool := n.natAbs < bound

theorem fits_iff (n : Int) : fits n = true ↔ n.natAbs < bound := by
  rw [fits, decide_eq_true_eq]

def value (digits : Text) : Nat :=
  digits.foldl (fun n c => 10 * n + (Text.digitValue? c).getD 0) 0

def read (digits : Text) : Except NumeralFault Nat :=
  if digits.length ≤ digitLimit then .ok (value digits) else .error (.unreadable digits.length)

/-- The decimal digits of a number, after a minus sign if it is negative. -/
def text : Int → Text
  | .ofNat n => Nat.toDigits 10 n
  | .negSucc n => '-' :: Nat.toDigits 10 (n + 1)

/-- As `text`, with a plus sign before a number that is not negative. -/
def signedText (n : Int) : Text :=
  if n < 0 then text n else '+' :: text n

/-- What `shown` says, unless one of the numbers it shows is too long to be written. -/
def checked (numbers : List Int) (shown : Text) : Except NumeralFault Text :=
  if numbers.all fits then .ok shown else .error .unwritable

end Numeral

def NumeralFault.message : NumeralFault → Text
  | .unreadable digits =>
    "Exceeds the limit (4300 digits) for integer string conversion: value has ".toList
      ++ Numeral.text digits
      ++ " digits; use sys.set_int_max_str_digits() to increase the limit".toList
  | .unwritable =>
    "Exceeds the limit (4300 digits) for integer string conversion; use sys.set_int_max_str_digits() to increase the limit".toList

end DiceNotation
