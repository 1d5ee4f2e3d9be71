import DiceNotation.Batch
import DiceNotation.CommandLine.Arguments
import DiceNotation.CommandLine.Help
import DiceNotation.CommandLine.Records
import DiceNotation.Display
import DiceNotation.Source.Twister
import DiceNotation.Tally.Chart

/-!
# The command line

Rolls the expression that the arguments give and prints what it came to. Nothing is printed until
all is rolled. A source is opened only for an expression, and only once. The log is set up once the
arguments are accepted, and its records stand before all else that is told beside the output.
-/

namespace DiceNotation.CommandLine

inductive Ending where
  | exit (code : Nat)
  /-- The program is stopped by a fault that it does not tell. -/
  | stopped (fault : Fault)
deriving DecidableEq

structure Outcome (σ : Type) where
  ending : Ending
  stdout : Text := []
  stderr : Text := []
  /-- The seed for which a source was opened, and what is left of the source. -/
  opened : Option (Given × σ) := none

/-- The faults that are told as errors. The others stop the program. -/
def isTold : Fault → Bool
  | .source (.exhausted _) | .zeroStep | .gap | .tally .noSamples | .tally .hugeShare
  | .tally .hugeBar | .blankCount | .blankSeed | .unknownLevel _ => false
  | .source _ | .numeral _ | .incomplete _ | .pool _ | .tooFew .. | .tally _ => true

def errorLine (message : Text) : Text := "error: ".toList ++ message ++ ['\n']

def unparsedLine (reading : Reading) : Text :=
  match reading.remainder with
  | none => []
  | some remainder =>
    "unparsed: ".toList ++ remainder
      ++ (reading.reason.map fun reason => ' ' :: '(' :: reason.message ++ [')']).getD [] ++ ['\n']

/-- The number that is given, or else a default. -/
def Given.orDefault (default : Int) : Given → Except Fault Int
  | .nothing => .ok default
  | .blank => .error .blankCount
  | .number n => .ok n

/-- Opens a source for a seed. Where nothing is given the seed is that of the system. -/
def openTwister (systemSeed : Int) : Given → Except Fault Twister
  | .nothing => .ok (Twister.ofSeed systemSeed)
  | .blank => .error .blankSeed
  | .number n => .ok (Twister.ofSeed n)

variable {σ : Type} [Source σ]

def rolled (settings : Settings) (request : Request) (expression : Expression) :
    Rolling σ Text := do
  match request.display with
  | .chart =>
    let samples ← MonadExcept.ofExcept (request.count.orDefault settings.chartSamples)
    let tally ← expression.sample settings.limits samples
    MonadExcept.ofExcept (tally.chart settings.chartBarWidth)
  | .value =>
    let count ← MonadExcept.ofExcept (request.count.orDefault settings.defaultCount)
    let values ← expression.run settings.limits count
    MonadExcept.ofExcept ((Value.writeScores values).mapError .numeral)
  | .full =>
    let count ← MonadExcept.ofExcept (request.count.orDefault settings.defaultCount)
    let values ← expression.run settings.limits count
    MonadExcept.ofExcept
      ((Text.lines <$> values.mapM (Value.writeFull expression)).mapError .numeral)

/-- Rolls what was read on a source that is opened for the seed of the request. -/
def runReading (settings : Settings) (openSource : Given → Except Fault σ) (request : Request)
    (reading : Reading) (expression : Expression) : Outcome σ :=
  match openSource request.seed with
  | .error fault => { ending := .stopped fault }
  | .ok source =>
    match rolled settings request expression source with
    | .ok text after =>
      { ending := .exit 0
        stdout := text ++ ['\n']
        stderr := unparsedLine reading
        opened := some (request.seed, after) }
    | .error fault after =>
      if isTold fault then
        { ending := .exit 1
          stderr := errorLine fault.message
          opened := some (request.seed, after) }
      else { ending := .stopped fault, opened := some (request.seed, after) }

/-- The outcome behind the records that were shown before. -/
def Outcome.behind (records : Text) (outcome : Outcome σ) : Outcome σ :=
  { outcome with stderr := records ++ outcome.stderr }

/-- Reads the expression of the request and rolls it, with a log that shows records from a rank on. -/
def runRequest (settings : Settings) (rank : Nat) (openSource : Given → Except Fault σ)
    (request : Request) : Outcome σ :=
  match read request.expression with
  | .error fault => { ending := .stopped (.numeral fault) }
  | .ok reading =>
    Outcome.behind (shownAt rank (readingRecords request.expression reading)) <|
      match reading.expression with
      | none =>
        { ending := .exit 1
          stderr := errorLine ("could not parse ".toList ++ Text.quoted request.expression) }
      | some expression => runReading settings openSource request reading expression

/-- Help is prepared before the arguments are read, so its number has to be one that can be
written. -/
def run (settings : Settings) (openSource : Given → Except Fault σ) (arguments : List Text) :
    Outcome σ :=
  if !Numeral.fits settings.chartSamples then { ending := .stopped (.numeral .unwritable) }
  else
    match readArguments settings arguments with
    | .error fault =>
      { ending := .exit 2
        stderr := usage ++ programName ++ [':', ' '] ++ errorLine fault.message }
    | .ok .help => { ending := .exit 0, stdout := help settings }
    | .ok (.request request) =>
      match rank? settings.logLevel with
      | none => { ending := .stopped (.unknownLevel settings.logLevel) }
      | some rank => runRequest settings rank openSource request

end DiceNotation.CommandLine
