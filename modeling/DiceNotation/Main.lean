import DiceNotation.CommandLine

/-!
# The program

Reads the settings from the environment, runs the command line on the arguments, and prints what
it gives. Where no seed is asked for, one is taken from the system.
-/

open DiceNotation

/-- The fields of the settings that the environment gives, under names in capital letters. -/
def environmentTexts : IO (List (Text × Text)) := do
  let texts ← (Settings.textFields ++ Settings.numberFields).mapM fun field => do
    let name := "DICEPOOL_" ++ (String.ofList field).toUpper
    return (← IO.getEnv name).map fun text => (field, text.toList)
  return texts.filterMap id

def systemSeed : IO Int := do
  return (← IO.getRandomBytes 32).toList.foldl (fun (n : Int) byte => 256 * n + byte.toNat) 0

def main (arguments : List String) : IO UInt32 := do
  let texts ← environmentTexts
  let number? (field : Text) : Option Int := (texts.lookup field).bind Numeral.ofArgument?
  let faulty := Settings.numberFields.filter fun field =>
    (texts.lookup field).isSome && (number? field).isNone
  for field in faulty do
    IO.eprintln (String.ofList field ++ ": not an integer")
  if !faulty.isEmpty then return 1
  let settings := Settings.ofGiven (fun field => texts.lookup field) number?
  let outcome := CommandLine.run settings (CommandLine.openTwister (← systemSeed))
    (arguments.map String.toList)
  IO.print (String.ofList outcome.stdout)
  IO.eprint (String.ofList outcome.stderr)
  match outcome.ending with
  | .exit code => return code.toUInt32
  | .stopped fault =>
    IO.eprintln (String.ofList fault.message)
    return 1
