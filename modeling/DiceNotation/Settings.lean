import DiceNotation.Pool
import DiceNotation.Text.Upper

/-!
# Settings

What is rolled and shown where nothing else is asked for, the largest requests, and the level of
the log.
-/

namespace DiceNotation

structure Settings where
  defaultDisplay : Text := "full".toList
  defaultCount : Int := 1
  chartSamples : Int := 10000
  chartBarWidth : Int := 50
  maxDice : Int := 1000
  maxSides : Int := 10000
  maxSamples : Int := 100000
  /-- The seed of a source that is opened without one. -/
  seed : Option Int := none
  logLevel : Text := "WARNING".toList
deriving DecidableEq

namespace Settings

def limits (settings : Settings) : Limits := ⟨settings.maxDice, settings.maxSides⟩

def textFields : List Text := ["default_display".toList, "log_level".toList]

/-- The fields that are whole numbers, in alphabetical order. -/
def numberFields : List Text :=
  ["chart_bar_width", "chart_samples", "default_count", "max_dice", "max_samples", "max_sides",
    "seed"].map String.toList

/-- The settings with every field that is given. The names of levels are in capital letters. -/
def ofGiven (text? : Text → Option Text) (number? : Text → Option Int) : Settings :=
  let defaults : Settings := {}
  let number (field : String) (default : Int) : Int := (number? field.toList).getD default
  { defaultDisplay := (text? "default_display".toList).getD defaults.defaultDisplay
    defaultCount := number "default_count" defaults.defaultCount
    chartSamples := number "chart_samples" defaults.chartSamples
    chartBarWidth := number "chart_bar_width" defaults.chartBarWidth
    maxDice := number "max_dice" defaults.maxDice
    maxSides := number "max_sides" defaults.maxSides
    maxSamples := number "max_samples" defaults.maxSamples
    seed := number? "seed".toList
    logLevel := (text? "log_level".toList).elim defaults.logLevel Text.upper }

end Settings

end DiceNotation
