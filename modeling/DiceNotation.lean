import DiceNotation.Draft
import DiceNotation.Main
import DiceNotation.Proofs.Evaluation.Balance
import DiceNotation.Proofs.Expression.RoundTrip
import DiceNotation.Proofs.Reading.Longest
import DiceNotation.Service
import DiceNotation.Source.Replay
import DiceNotation.Proofs.Source.Throws
import DiceNotation.Proofs.Rolling.Course
import DiceNotation.Proofs.Pool.Explosion
import DiceNotation.Proofs.Pool.Faces
import DiceNotation.Proofs.Pool.Admission
import DiceNotation.Proofs.Pool.Guard
import DiceNotation.Proofs.Evaluation.Pools
import DiceNotation.Proofs.Evaluation.Refusal
import DiceNotation.Proofs.Evaluation.Frame
import DiceNotation.Proofs.Evaluation.Dice
import DiceNotation.Proofs.Tally.Counts
import DiceNotation.Proofs.Batch.Composition
import DiceNotation.Proofs.Text.Lines
import DiceNotation.Proofs.Expression.Lines
import DiceNotation.Proofs.Fault.Results
import DiceNotation.Proofs.Tally.Shares
import DiceNotation.Proofs.Tally.Chart
import DiceNotation.Proofs.CommandLine.Displays
import DiceNotation.Proofs.CommandLine.Endings
import DiceNotation.Proofs.CommandLine.Records
import DiceNotation.Proofs.Numeral.Entry
import DiceNotation.Proofs.CommandLine.Requests
import DiceNotation.Proofs.Service.Agreement
import DiceNotation.Proofs.Grammar.Asking
import DiceNotation.Proofs.Reading.LongNumbers
import DiceNotation.Proofs.Grammar.Reasons
import DiceNotation.Proofs.Reading.Stopping
import DiceNotation.Proofs.Evaluation.Explosions
import DiceNotation.Proofs.Pool.Keeping
import DiceNotation.Proofs.Pool.Standing
import DiceNotation.Proofs.Evaluation.Faces
import DiceNotation.Proofs.Evaluation.Ties
import DiceNotation.Proofs.Evaluation.Targets
import DiceNotation.Proofs.Evaluation.Arithmetic
import DiceNotation.Proofs.Evaluation.Reordering
import DiceNotation.Proofs.Evaluation.Empty
import DiceNotation.Proofs.Evaluation.BetterSets
import DiceNotation.Proofs.Evaluation.Groups
import DiceNotation.Proofs.Evaluation.HigherFaces
import DiceNotation.Proofs.Binary64.Rounding
import DiceNotation.Proofs.Tally.Survival
import DiceNotation.Proofs.Tally.Bars
import DiceNotation.Proofs.Display.Figures
import DiceNotation.Proofs.Evaluation.Levels
import DiceNotation.Proofs.Evaluation.Budget
import DiceNotation.Proofs.Reading.Blanks
import DiceNotation.Proofs.Lexing.MaximalMunch
