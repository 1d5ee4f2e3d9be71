import DiceNotation.Fault
import DiceNotation.Settings

/-!
# Log records

What was read is logged at the level of debugging, beside the output and before anything else is
told there. A level is known by its name; one that is not stops the program. The records that are
made while dice are rolled are left out here.
-/

namespace DiceNotation.CommandLine

/-- The names of levels, and the rank a record has to have to be shown at each of them. -/
def levels : List (Text × Nat) :=
  [("CRITICAL".toList, 50), ("FATAL".toList, 50), ("ERROR".toList, 40), ("WARNING".toList, 30),
    ("WARN".toList, 30), ("INFO".toList, 20), ("DEBUG".toList, 10), ("NOTSET".toList, 0)]

def rank? (level : Text) : Option Nat := levels.lookup level

/-- The rank of the records of debugging. -/
def debugRank : Nat := 10

/-- The records that are shown at a level of this rank. -/
def shownAt (rank : Nat) (records : Text) : Text := if rank ≤ debugRank then records else []

theorem shownAt_of_lt {rank : Nat} (h : debugRank < rank) (records : Text) :
    shownAt rank records = [] :=
  if_neg (Nat.not_le.mpr h)

def debugRecord (part message : Text) : Text :=
  "DEBUG:dicepool.".toList ++ part ++ ':' :: message ++ ['\n']

/-- Where the rest of a text begins, behind which there are only blanks. -/
def restStart (text rest : Text) : Nat :=
  (text.reverse.dropWhile Text.isBlank).length - rest.length

def stoppedRecord (text rest : Text) : Text :=
  debugRecord "parser".toList
    ("Stopped parsing ".toList ++ Text.quoted text ++ " at offset ".toList
      ++ Numeral.text (restStart text rest) ++ ':' :: ' ' :: Text.quoted rest)

def parsedRecord (text : Text) (expression : Expression) : Text :=
  debugRecord "cli".toList
    ("Parsed ".toList ++ Text.quoted text ++ " as ".toList ++ expression.text)

/-- The records of a text and of what was read of it. -/
def readingRecords (text : Text) (reading : Reading) : Text :=
  (reading.remainder.map (stoppedRecord text)).getD []
    ++ (reading.expression.map (parsedRecord text)).getD []

end DiceNotation.CommandLine
