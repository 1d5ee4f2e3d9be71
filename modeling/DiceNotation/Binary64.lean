import DiceNotation.Numeral

/-!
# Binary64 numbers

Floating point numbers of 64 bits, infinities included, without the values that are no numbers.
A result is exact and then rounded once, to the nearest number and on a tie to the even one.
-/

namespace DiceNotation

/-- The quotient rounded to the nearest whole number, and on a tie to the even one. -/
def roundedQuotient (numerator denominator : Nat) : Nat :=
  let quotient := numerator / denominator
  let twice := 2 * (numerator % denominator)
  if denominator < twice || (denominator == twice && quotient % 2 == 1) then quotient + 1
  else quotient

inductive Binary64 where
  /-- The mantissa times two to the exponent. The mantissa is below `2 ^ 53`, and it is at least
  `2 ^ 52` unless the exponent is `-1074`, the least one. -/
  | finite (negative : Bool) (mantissa : Nat) (exponent : Int)
  | infinite (negative : Bool)
deriving DecidableEq

namespace Binary64

def leastExponent : Int := -1074

def greatestExponent : Int := 971

/-- The quotient divided by two to the exponent, again as a quotient of whole numbers. -/
def scaled (numerator denominator : Nat) (exponent : Int) : Nat × Nat :=
  if exponent < 0 then (numerator <<< exponent.natAbs, denominator)
  else (numerator, denominator <<< exponent.natAbs)

/-- The exponent with which the quotient has a mantissa of 53 bits, or the least one. -/
def exponentFor (numerator denominator : Nat) : Int :=
  let low : Int := (numerator.log2 : Int) - denominator.log2 - 53
  let (n, d) := scaled numerator denominator low
  max leastExponent (if n < d <<< 53 then low else low + 1)

def ofRatio (negative : Bool) (numerator denominator : Nat) : Binary64 :=
  if numerator = 0 then .finite negative 0 leastExponent
  else
    let exponent := exponentFor numerator denominator
    let (n, d) := scaled numerator denominator exponent
    let mantissa := roundedQuotient n d
    let (mantissa, exponent) :=
      if mantissa = 1 <<< 53 then (1 <<< 52, exponent + 1) else (mantissa, exponent)
    if greatestExponent < exponent then .infinite negative
    else .finite negative mantissa exponent

/-- The quotient of two whole numbers. The sign of a zero is that of the divisor. -/
def ofQuotient (numerator denominator : Int) : Binary64 :=
  ofRatio (decide (numerator < 0) != decide (denominator < 0)) numerator.natAbs
    denominator.natAbs

def scale (factor : Nat) : Binary64 → Binary64
  | .infinite negative => .infinite negative
  | .finite negative mantissa exponent =>
    let (n, d) := scaled (mantissa * factor) 1 (-exponent)
    ofRatio negative n d

def toBits : Binary64 → Nat
  | .infinite negative => negative.toNat <<< 63 + 0x7ff <<< 52
  | .finite negative mantissa exponent =>
    let magnitude :=
      if mantissa < 1 <<< 52 then mantissa
      else (exponent + 1075).toNat <<< 52 + (mantissa - 1 <<< 52)
    negative.toNat <<< 63 + magnitude

/-- The number with one decimal place, rounded from its exact value. -/
def oneDecimal : Binary64 → Text
  | .infinite negative => sign negative ++ ['i', 'n', 'f']
  | .finite negative mantissa exponent =>
    let (n, d) := scaled (10 * mantissa) 1 (-exponent)
    let tenths := roundedQuotient n d
    sign negative ++ Numeral.text (tenths / 10 : Nat) ++ '.' :: Numeral.text (tenths % 10 : Nat)
where
  sign (negative : Bool) : Text := if negative then ['-'] else []

end Binary64

end DiceNotation
