import DiceNotation.Tally

/-!
# Charts

A tally as lines of text, one for each score of its range: the score, the share of samples at or
above it in percent, and for a score that came up a bar whose length goes with its count.
-/

namespace DiceNotation.Tally

/-- How many samples a star stands for, so that the longest bar has about `width` stars. -/
def starSize (width maxCount : Int) : Int := max 1 (Int.fdiv maxCount (max width 1))

/-- How many stars the bar of a count has. No bar has fewer than none. -/
def barLength (starSize count : Int) : Int := Int.fdiv count starSize + 1

/-- The least number that is no number of 64 bits with a sign. -/
def indexLimit : Int := 1 <<< 63

/-- As many stars as a number of 64 bits says. -/
def stars (n : Int) : Except TallyFault Text :=
  if n < -indexLimit ∨ indexLimit ≤ n then .error .hugeBar else .ok (List.replicate n.toNat '*')

/-- The bar behind a score, with the space before it. -/
def bar (starSize count : Int) : Except TallyFault Text :=
  if count = 0 then .ok [] else (' ' :: ·) <$> stars (barLength starSize count)

def chartRow (tally : Tally) (starSize : Int) (score : Int) (share : Binary64) :
    Except Fault Text := do
  let label ← (Numeral.checked [score] (Numeral.text score)).mapError .numeral
  let bar ← (bar starSize (tally.countOf score)).mapError .tally
  return label.leftpad 3 ' ' ++ '.' :: ' ' :: (share.scale 100).oneDecimal.leftpad 5 ' '
    ++ ':' :: bar

def chartRows (tally : Tally) (width : Int) : Except Fault (List (Int × Text)) := do
  let starSize := starSize width (← tally.maxCount.mapError .tally)
  let shares ← tally.filled.mapError .tally
  shares.mapM fun (score, share) => return (score, ← tally.chartRow starSize score share)

def chart (tally : Tally) (width : Int) : Except Fault Text := do
  return Text.lines ((← tally.chartRows width).map (·.2))

end DiceNotation.Tally
