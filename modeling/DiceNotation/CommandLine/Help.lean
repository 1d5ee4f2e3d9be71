import DiceNotation.Settings
import DiceNotation.Text.Fill

/-!
# Help texts

What the command line prints about itself, on lines of at most 78 characters.
-/

namespace DiceNotation.CommandLine

def programName : Text := "dicepool".toList

def usage : Text :=
  "usage: ".toList ++ programName
    ++ " [-h] [-d \x7bfull,value,chart\x7d] [-c COUNT] [--seed SEED]\n".toList
    ++ "                expression\n".toList

/-- An option or argument, and the lines about it, which begin in the column behind it. -/
structure HelpEntry where
  name : String
  about : List Text

def aboutColumn : Nat := 24

/-- How many characters of a description there are on a line. -/
def aboutWidth : Nat := 54

/-- The description starts on the line of the name if there are two spaces between them. -/
def HelpEntry.text (entry : HelpEntry) : Text :=
  let name := ' ' :: ' ' :: entry.name.toList
  let margin := List.replicate aboutColumn ' '
  let lines := entry.about.map (margin ++ ·)
  let lines :=
    if name.length + 2 ≤ aboutColumn then
      match entry.about with
      | [] => [name]
      | first :: _ => (name.rightpad aboutColumn ' ' ++ first) :: lines.tail
    else name :: lines
  lines.flatMap (· ++ ['\n'])

def words (sentence : String) : List Text := sentence.toList.splitOn ' '

def positionalEntries : List HelpEntry :=
  [⟨"expression", ["Dice notation, e.g. \"3d6 + 2\" or \"4d6^3\"".toList]⟩]

def optionEntries (settings : Settings) : List HelpEntry :=
  [⟨"-h, --help", ["show this help message and exit".toList]⟩,
    ⟨"-d \x7bfull,value,chart\x7d, --display \x7bfull,value,chart\x7d",
      ["Display the results: full, value, or chart".toList]⟩,
    ⟨"-c COUNT, --count COUNT",
      Text.fill aboutWidth
        (words "Run the expression this many times (chart defaults to"
          ++ [Numeral.text settings.chartSamples] ++ words "samples)")⟩,
    ⟨"--seed SEED", ["Seed the dice for repeatable rolls".toList]⟩]

def help (settings : Settings) : Text :=
  usage ++ "\nGenerates random dice rolls\n\npositional arguments:\n".toList
    ++ positionalEntries.flatMap HelpEntry.text ++ "\noptions:\n".toList
    ++ (optionEntries settings).flatMap HelpEntry.text

end DiceNotation.CommandLine
