import BinaryLog.Binary64.OfText
import BinaryLog.Replay.Config

namespace BinaryLog.CommandLine

/-!
# Command line arguments

Arguments are read from left to right. Options may be long or short, short ones may be joined, and
what takes a value finds it behind an equals sign, in the same argument or in the next one. The
first argument that makes no sense, or that asks for the version or for help, decides. The main
definitions are

* `Options`, what a replay is asked for with, and `Invocation`, what is asked for;
* `Draft`, the arguments read so far;
* `Invocation.ofArguments`.
-/

/-- Where the cycles per second come from. -/
inductive Calibration where
  | fixed
  | checkpoint
deriving DecidableEq

/-- What to replay, and how. -/
structure Options where
  logFile : String
  /-- The most messages to show; none for zero. -/
  maxMessages : Nat := 0
  catalog : String
  calibration : Calibration := .fixed
  cyclesPerSecond : Binary64 := defaultRate
  /-- Is the origin of each message shown? -/
  origin : Bool := false
deriving DecidableEq

/-- The settings of the replay. -/
def Options.config (o : Options) : ReplayConfig :=
  { limit := if o.maxMessages = 0 then none else some o.maxMessages
    conversion :=
      match o.calibration with
      | .fixed => .fixed o.cyclesPerSecond
      | .checkpoint => .checkpoints o.cyclesPerSecond }

/-- What the program is asked for. -/
inductive Invocation where
  | replay (options : Options)
  | version
  | help
  /-- The arguments make no sense. -/
  | misuse
deriving DecidableEq

/-! ### What arguments say -/

/-- An option that takes a value. -/
inductive ValueOption where
  | catalog
  | calibration
  | cyclesPerSecond
deriving DecidableEq

/-- An option that takes none. -/
inductive FlagOption where
  | origin
  | verbose
  | version
  | help
deriving DecidableEq

/-- An option of either sort. -/
abbrev AnyOption := ValueOption ⊕ FlagOption

/-- The option with a long name. -/
def longOption? : String → Option AnyOption
  | "catalog" => some (.inl .catalog)
  | "calibration" => some (.inl .calibration)
  | "cycles-per-second" => some (.inl .cyclesPerSecond)
  | "origin" => some (.inr .origin)
  | "verbose" => some (.inr .verbose)
  | "version" => some (.inr .version)
  | "help" => some (.inr .help)
  | _ => none

/-- The option with a short name. -/
def shortOption? : Char → Option AnyOption
  | 'c' => some (.inl .catalog)
  | 'v' => some (.inr .verbose)
  | 'V' => some (.inr .version)
  | 'h' => some (.inr .help)
  | _ => none

/-- An argument by its look. A dash alone is a value. -/
inductive ArgumentForm where
  | value
  /-- Two dashes alone, after which everything is a value. -/
  | separator
  /-- A long option, with what stands behind an equals sign if there is one. -/
  | long (name : String) (attached : Option String)
  /-- Short options. -/
  | short (letters : List Char)

/-- The look of an argument. -/
def ArgumentForm.of (argument : String) : ArgumentForm :=
  match argument.toList with
  | ['-', '-'] => .separator
  | '-' :: '-' :: rest =>
    let name := String.ofList (rest.takeWhile (· != '='))
    match rest.dropWhile (· != '=') with
    | _ :: attached => .long name (some (String.ofList attached))
    | [] => .long name none
  | '-' :: c :: letters => .short (c :: letters)
  | _ => .value

/-- The largest number of messages that can be asked for. -/
def maxMessageCount : Nat := UInt64.size - 1

/-- A number of messages: digits, perhaps after a plus. -/
def messageCount? (text : String) : Option Nat :=
  let digits :=
    match text.toList with
    | '+' :: rest => rest
    | cs => cs
  if digits.isEmpty || !digits.all Char.isDigit then none
  else
    let count := Nat.ofDigitChars 10 digits 0
    if count ≤ maxMessageCount then some count else none

/-! ### Arguments read so far -/

/-- The arguments read so far. -/
structure Draft where
  logFile : Option String := none
  maxMessages : Option Nat := none
  catalog : Option String := none
  calibration : Option Calibration := none
  cyclesPerSecond : Option Binary64 := none
  origin : Bool := false
deriving DecidableEq

namespace Draft

/-- What all arguments together ask for. -/
def finish (d : Draft) : Invocation :=
  match d.logFile, d.catalog with
  | some logFile, some catalog =>
    .replay
      { logFile, catalog, maxMessages := d.maxMessages.getD 0
        calibration := d.calibration.getD .fixed
        cyclesPerSecond := d.cyclesPerSecond.getD defaultRate, origin := d.origin }
  | _, _ => .misuse

/-- Takes a value that belongs to no option: the log file first, then the number of messages. Paths
    are not empty. -/
def addValue (d : Draft) (value : String) : Option Draft :=
  match d.logFile, d.maxMessages with
  | none, _ => if value.isEmpty then none else some { d with logFile := some value }
  | some _, none => (messageCount? value).map fun count => { d with maxMessages := some count }
  | some _, some _ => none

/-- Gives an option its value. No option is given twice. -/
def setValue (d : Draft) (option : ValueOption) (value : String) : Option Draft :=
  match option with
  | .catalog =>
    if d.catalog.isSome || value.isEmpty then none else some { d with catalog := some value }
  | .calibration =>
    if d.calibration.isSome then none
    else if value = "fixed" then some { d with calibration := some .fixed }
    else if value = "checkpoint" then some { d with calibration := some .checkpoint }
    else none
  | .cyclesPerSecond =>
    if d.cyclesPerSecond.isSome then none
    else (Binary64.ofText? value).map fun rate => { d with cyclesPerSecond := some rate }

/-- What reading one argument comes to. -/
inductive Step where
  /-- The next argument can be read. -/
  | more (d : Draft)
  /-- The next argument is the value of an option. -/
  | needsValue (d : Draft) (option : ValueOption)
  /-- The rest does not matter. -/
  | decided (invocation : Invocation)

/-- The step that an attempt to take a value is. -/
def Step.ofOption : Option Draft → Step
  | some d => .more d
  | none => .decided .misuse

/-- Takes an option that has no value. Being verbose changes only what is logged about the run, so
    it may be asked for any number of times. -/
def setFlag (d : Draft) : FlagOption → Step
  | .origin => if d.origin then .decided .misuse else .more { d with origin := true }
  | .verbose => .more d
  | .version => .decided .version
  | .help => .decided .help

/-- Takes joined short options. The value of one may follow in the same argument, behind an equals
    sign or not. -/
def addLetters (d : Draft) : List Char → Step
  | [] => .more d
  | letter :: letters =>
    match shortOption? letter with
    | none => .decided .misuse
    | some (.inr flag) =>
      match d.setFlag flag with
      | .more d => addLetters d letters
      | step => step
    | some (.inl option) =>
      match letters with
      | [] => .needsValue d option
      | '=' :: value => .ofOption (d.setValue option (String.ofList value))
      | value => .ofOption (d.setValue option (String.ofList value))

/-- Takes a long option. -/
def addLong (d : Draft) (name : String) (attached : Option String) : Step :=
  match longOption? name, attached with
  | some (.inl option), some value => .ofOption (d.setValue option value)
  | some (.inl option), none => .needsValue d option
  | some (.inr flag), none => d.setFlag flag
  | some (.inr _), some _ => .decided .misuse
  | none, _ => .decided .misuse

/-- Takes arguments that are all values. -/
def addValues (d : Draft) (values : List String) : Invocation :=
  match values.foldlM addValue d with
  | some d => d.finish
  | none => .misuse

/-- Takes arguments. A separate value does not look like an option. -/
def addArguments (d : Draft) : List String → Invocation
  | [] => d.finish
  | argument :: rest =>
    let step : Step :=
      match ArgumentForm.of argument with
      | .separator => .decided (d.addValues rest)
      | .value => .ofOption (d.addValue argument)
      | .long name attached => d.addLong name attached
      | .short letters => d.addLetters letters
    match step with
    | .decided invocation => invocation
    | .more d => addArguments d rest
    | .needsValue d option =>
      match rest with
      | [] => .misuse
      | value :: rest =>
        match ArgumentForm.of value with
        | .value =>
          match d.setValue option value with
          | some d => addArguments d rest
          | none => .misuse
        | _ => .misuse

end Draft

/-- What a list of arguments asks for. -/
def Invocation.ofArguments (arguments : List String) : Invocation := Draft.addArguments {} arguments

end BinaryLog.CommandLine
