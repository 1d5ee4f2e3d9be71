import DiceNotation.Numeral.Entry
import DiceNotation.Settings
import DiceNotation.Text.Quoted

/-!
# Command line arguments

An argument is an option, a value, or the marker behind which there are only values. An option is
named in full, by a beginning that no other option has, or by a letter to which its value may be
attached. What looks like a negative number or contains a space is a value. An option to which
the marker is attached is given, but left blank. All arguments up to the marker are classified
before any is used; the first problem in this order is the one that is told.
-/

namespace DiceNotation.CommandLine

inductive Display where
  | full
  | value
  | chart
deriving DecidableEq

/-- The options. All but `help` take a value. -/
inductive Flag where
  | help
  | display
  | count
  | seed
deriving DecidableEq

inductive UsageFault where
  | ambiguous (argument : Text) (spellings : List Text)
  | noValue (flag : Flag)
  | unusedValue (value : Text)
  | notDisplay (value : Text)
  | notInteger (flag : Flag) (value : Text)
  | noExpression
  | unrecognized (arguments : List Text)
deriving DecidableEq

inductive Given where
  | nothing
  /-- There is an option for the number, but it is left blank. -/
  | blank
  | number (n : Int)
deriving DecidableEq

structure Request where
  expression : Text
  display : Display
  count : Given
  seed : Given
deriving DecidableEq

def Given.ofOption : Option Int → Given
  | none => .nothing
  | some n => .number n

namespace Display

def all : List Display := [full, value, chart]

def name : Display → Text
  | full => "full".toList
  | value => "value".toList
  | chart => "chart".toList

def ofName? (name : Text) : Option Display := all.find? fun display => display.name == name

end Display

namespace Flag

/-- All spellings of options, in the order in which they are listed. -/
def spellings : List (Text × Flag) :=
  [(['-', 'h'], help), ("--help".toList, help), (['-', 'd'], display),
    ("--display".toList, display), (['-', 'c'], count), ("--count".toList, count),
    ("--seed".toList, seed)]

def name (flag : Flag) : Text :=
  ['/'].intercalate ((spellings.filter (·.2 = flag)).map (·.1))

def ofSpelling? (spelling : Text) : Option Flag := spellings.lookup spelling

def ofLetter? (letter : Char) : Option Flag := ofSpelling? ['-', letter]

end Flag

namespace UsageFault

def argumentMessage (flag : Flag) (problem : Text) : Text :=
  "argument ".toList ++ flag.name ++ [':', ' '] ++ problem

def message : UsageFault → Text
  | .ambiguous argument spellings =>
    "ambiguous option: ".toList ++ argument ++ " could match ".toList
      ++ [',', ' '].intercalate spellings
  | .noValue flag => argumentMessage flag "expected one argument".toList
  | .unusedValue value =>
    argumentMessage .help ("ignored explicit argument ".toList ++ Text.quoted value)
  | .notDisplay value =>
    argumentMessage .display ("invalid choice: ".toList ++ Text.quoted value
      ++ " (choose from ".toList
      ++ [',', ' '].intercalate (Display.all.map fun display => Text.quoted display.name) ++ [')'])
  | .notInteger flag value =>
    argumentMessage flag ("invalid int value: ".toList ++ Text.quoted value)
  | .noExpression => "the following arguments are required: expression".toList
  | .unrecognized arguments =>
    "unrecognized arguments: ".toList ++ [' '].intercalate arguments

end UsageFault

/-! ### Classification -/

def marker : Text := ['-', '-']

inductive Word where
  | value
  /-- The marker behind which there are only values. -/
  | marker
  | unknown
  /-- An option, by its letter or by a longer name, with the value that is attached to it. -/
  | option (flag : Flag) (short : Bool) (attached : Option Text)
deriving DecidableEq

/-- The text before the first equals sign, and the text behind it if there is one. -/
def splitEquals (text : Text) : Text × Option Text :=
  let (name, rest) := text.span (· ≠ '=')
  (name, rest.tail?)

/-- Whether a text is a minus sign and decimal digits, with a point before or among them, and at
most one line end behind them. -/
def looksNegative (text : Text) : Bool :=
  let text := if text.getLast? == some '\n' then text.dropLast else text
  match text with
  | '-' :: number =>
    let (whole, rest) := number.span Text.isDigit
    match rest with
    | [] => !whole.isEmpty
    | '.' :: fraction => !fraction.isEmpty && fraction.all Text.isDigit
    | _ => false
  | _ => false

/-- A word that names no option in full or by its letter. -/
def Word.ofUnnamed (argument : Text) : Word :=
  if looksNegative argument || argument.contains ' ' then .value else .unknown

/-- The word of an argument that begins with two minus signs and is no full spelling. -/
def Word.ofLong (argument : Text) : Except UsageFault Word :=
  let (name, attached) := splitEquals argument
  match Flag.spellings.filter fun (spelling, _) => name.isPrefixOf spelling with
  | [] => .ok (.ofUnnamed argument)
  | [(_, flag)] => .ok (.option flag false attached)
  | matching => .error (.ambiguous argument (matching.map (·.1)))

def Word.ofArgument (argument : Text) : Except UsageFault Word :=
  match argument with
  | '-' :: second :: rest =>
    match Flag.ofSpelling? argument, splitEquals argument with
    | some flag, _ => .ok (.option flag (second ≠ '-') none)
    | none, (name, attached) =>
      match Flag.ofSpelling? name, attached with
      | some flag, some text => .ok (.option flag (second ≠ '-') (some text))
      | _, _ =>
        if second = '-' then Word.ofLong argument
        else
          match Flag.ofLetter? second with
          | some flag => .ok (.option flag true (some rest))
          | none => .ok (.ofUnnamed argument)
  | _ => .ok .value

def classify : List Text → Except UsageFault (List (Text × Word))
  | [] => .ok []
  | argument :: rest =>
    if argument = marker then .ok ((argument, .marker) :: rest.map (·, .value))
    else do
      let word ← Word.ofArgument argument
      return (argument, word) :: (← classify rest)

/-! ### Use -/

structure Gathered where
  expression : Option Text := none
  display : Display
  count : Given := .nothing
  seed : Given
  unused : List Text := []

/-- Arguments that ask for help, or for what they gather. -/
inductive Asked (α : Type) where
  | help
  | request (request : α)
deriving DecidableEq

/-- The problem with options that are written as letters behind that for help. The last of them
may need the argument that follows as its value. -/
def lettersFault? (valueFollows : Bool) : Text → Option UsageFault
  | [] => none
  | letter :: rest =>
    match Flag.ofLetter? letter, rest with
    | none, _ => some (.unusedValue (letter :: rest))
    | some .help, rest => lettersFault? valueFollows rest
    | some flag, [] => if valueFollows then none else some (.noValue flag)
    | some _, _ :: _ => none

/-- The problem with an option for help, to which only letters of options can be attached, and
only to its own letter. -/
def helpFault? (short valueFollows : Bool) : Option Text → Option UsageFault
  | none => none
  | some [] => some (.unusedValue [])
  | some attached =>
    if short then lettersFault? valueFollows attached else some (.unusedValue attached)

def Given.read (flag : Flag) (value : Text) : Except UsageFault Given :=
  if value = marker then .ok .blank
  else
    match Numeral.ofArgument? value with
    | some n => .ok (.number n)
    | none => .error (.notInteger flag value)

/-- A display that is left blank is the full one. -/
def Display.read (value : Text) : Except UsageFault Display :=
  if value = marker then .ok .full
  else
    match Display.ofName? value with
    | some display => .ok display
    | none => .error (.notDisplay value)

def Gathered.give (gathered : Gathered) (flag : Flag) (value : Text) :
    Except UsageFault Gathered :=
  match flag with
  | .help => .ok gathered
  | .display => do return { gathered with display := ← Display.read value }
  | .count => do return { gathered with count := ← Given.read flag value }
  | .seed => do return { gathered with seed := ← Given.read flag value }

def Gathered.take (gathered : Gathered) (expression : Text) : Gathered :=
  { gathered with expression }

def Gathered.leave (gathered : Gathered) (arguments : List Text) : Gathered :=
  { gathered with unused := gathered.unused ++ arguments }

/-- The first value that belongs to no option is the expression. A marker directly before or
behind it belongs to it. -/
def gather (gathered : Gathered) : List (Text × Word) → Except UsageFault (Asked Gathered)
  | [] => .ok (.request gathered)
  | (argument, .unknown) :: rest => gather (gathered.leave [argument]) rest
  | (argument, .value) :: rest =>
    match gathered.expression, rest with
    | none, (_, .marker) :: values =>
      .ok (.request ((gathered.take argument).leave (values.map (·.1))))
    | none, rest => gather (gathered.take argument) rest
    | some _, rest => gather (gathered.leave [argument]) rest
  | (marker, .marker) :: values =>
    match gathered.expression, values with
    | none, (argument, _) :: values =>
      .ok (.request ((gathered.take argument).leave (values.map (·.1))))
    | _, values => .ok (.request (gathered.leave (marker :: values.map (·.1))))
  | (_, .option .help short attached) :: rest =>
    let valueFollows := match rest with
      | (_, .value) :: _ => true
      | _ => false
    match helpFault? short valueFollows attached with
    | some fault => .error fault
    | none => .ok .help
  | (_, .option flag _ (some attached)) :: rest => do
    gather (← gathered.give flag attached) rest
  | (_, .option flag _ none) :: (value, .value) :: rest => do
    gather (← gathered.give flag value) rest
  | (_, .option flag _ none) :: _ => .error (.noValue flag)

def Gathered.request (gathered : Gathered) : Except UsageFault Request :=
  match gathered.expression, gathered.unused with
  | none, _ => .error .noExpression
  | some expression, [] =>
    .ok { expression, display := gathered.display, count := gathered.count, seed := gathered.seed }
  | some _, unused => .error (.unrecognized unused)

/-- What the arguments ask for. A default display that is none of the displays is the full one. -/
def readArguments (settings : Settings) (arguments : List Text) :
    Except UsageFault (Asked Request) := do
  let words ← classify arguments
  let display := (Display.ofName? settings.defaultDisplay).getD .full
  match ← gather { display, seed := .ofOption settings.seed } words with
  | .help => return .help
  | .request gathered => return .request (← gathered.request)

end DiceNotation.CommandLine
