import DiceNotation.Batch
import DiceNotation.Display
import DiceNotation.Settings

/-!
# The web service

Two routes that take an expression and a number as parameters: one gives rolls, the other a
tally. Each route declares what it asks of its parameters, and they are checked before anything is
rolled; the check itself is not a part of the service. What is wrong with an expression or with its
pools is told in the response; every other fault is left to the server.
-/

namespace DiceNotation.Service

inductive Route where
  | roll
  | chart
deriving DecidableEq

/-- A score, how often it came up, and the share of samples at or above it. -/
structure ChartRow where
  score : Int
  count : Int
  atLeast : Binary64
deriving DecidableEq

/-- A parameter that is not right, and what is wrong with it. -/
structure Problem where
  parameter : Text
  cause : Text
deriving DecidableEq

inductive Response where
  | rolls (expression : Text) (remainder : Option Text) (rolls : List (Value × Text))
  | chart (expression : Text) (remainder : Option Text) (samples : Int) (rows : List ChartRow)
  | refused (detail : Text)
  | invalid (problems : List Problem)
deriving DecidableEq

def Response.status : Response → Nat
  | .rolls .. | .chart .. => 200
  | .refused _ => 400
  | .invalid _ => 422

/-- Named texts; no name occurs twice. -/
abbrev Parameters := List (Text × Text)

/-- A text that has to be given, with at least so many characters. -/
structure TextParameter where
  name : Text
  minLength : Nat

/-- A whole number within bounds, or a default that may be any number. -/
structure NumberParameter where
  name : Text
  default : Int
  least : Int
  greatest : Int

/-- Gives the text and the number that are asked for, or all that is wrong with the parameters. -/
abbrev Check := TextParameter → NumberParameter → Parameters → Except (List Problem) (Text × Int)

def expressionParameter : TextParameter := ⟨"expr".toList, 1⟩

def Route.countParameter (settings : Settings) : Route → NumberParameter
  | .roll => ⟨"count".toList, 1, 1, 1000⟩
  | .chart => ⟨"samples".toList, settings.chartSamples, 1, settings.maxSamples⟩

def unreadableDetail (text : Text) (reading : Reading) : Text :=
  "Could not parse ".toList ++ Text.quoted text
    ++ (reading.reason.map fun reason => ':' :: ' ' :: reason.message).getD []

variable {σ : Type} [Source σ]

/-- The response of an action, where a fault of a pool is told in the response. -/
def tellingPools (action : Rolling σ Response) : Rolling σ Response := fun source =>
  match action source with
  | .error (.pool fault) after => .ok (.refused fault.message) after
  | result => result

def rolls (settings : Settings) (expression : Expression) (remainder : Option Text)
    (count : Int) : Rolling σ Response := do
  let values ← expression.run settings.limits count
  let shown ← MonadExcept.ofExcept (expression.write.mapError Fault.numeral)
  let texts ← MonadExcept.ofExcept ((values.mapM Value.write).mapError Fault.numeral)
  return .rolls shown remainder (values.zip texts)

def chart (settings : Settings) (expression : Expression) (remainder : Option Text)
    (samples : Int) : Rolling σ Response := do
  let tally ← expression.sample settings.limits samples
  let shown ← MonadExcept.ofExcept (expression.write.mapError Fault.numeral)
  let shares ← MonadExcept.ofExcept (tally.atLeast.mapError Fault.tally)
  let rows := shares.map fun (score, atLeast) => ⟨score, tally.countOf score, atLeast⟩
  return .chart shown remainder samples rows

def respond (check : Check) (settings : Settings) (route : Route) (parameters : Parameters) :
    Rolling σ Response := do
  match check expressionParameter (route.countParameter settings) parameters with
  | .error problems => return .invalid problems
  | .ok (text, count) =>
    let reading ← MonadExcept.ofExcept ((read text).mapError Fault.numeral)
    match reading.expression with
    | none => return .refused (unreadableDetail text reading)
    | some expression =>
      tellingPools <|
        match route with
        | .roll => rolls settings expression reading.remainder count
        | .chart => chart settings expression reading.remainder count

end DiceNotation.Service
