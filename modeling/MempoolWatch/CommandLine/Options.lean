import MempoolWatch.Decimal.Reading

/-! The options of the watching program. An option stands on the command line at
most once; some that do not stand there are taken from the environment. -/
namespace MempoolWatch.CommandLine

structure Options where
  socketUrl : String := "ws://localhost:8547"
  nodeUrl : String := "http://localhost:8546"
  debug : Bool := false
  showAll : Bool := false
  /-- The path of the parameter file. -/
  params : Option String := none
  maxInFlight : Nat := 64
  queueCapacity : Nat := 1024
  drainSeconds : Nat := 10
  usdPrice : Float := 2000.0

inductive Setting
  | socketUrl
  | nodeUrl
  | debug
  | showAll
  | params
  | maxInFlight
  | queueCapacity
  | drainSeconds
  | usdPrice
deriving DecidableEq

namespace Setting

def all : List Setting :=
  [socketUrl, nodeUrl, debug, showAll, params, maxInFlight, queueCapacity, drainSeconds, usdPrice]

def name : Setting → String
  | socketUrl => "--ws-url"
  | nodeUrl => "--http-url"
  | debug => "--debug"
  | showAll => "--show-all"
  | params => "--params"
  | maxInFlight => "--max-in-flight"
  | queueCapacity => "--queue-capacity"
  | drainSeconds => "--drain-timeout-secs"
  | usdPrice => "--usd-price"

/-- The variable that stands in for the option. -/
def environmentName? : Setting → Option String
  | socketUrl => some "WS_URL"
  | nodeUrl => some "HTTP_URL"
  | debug => some "DEBUG"
  | showAll => some "SHOW_ALL"
  | _ => none

/-- Switches have no value on the command line. -/
def isSwitch : Setting → Bool
  | debug | showAll => true
  | _ => false

end Setting

/-- A natural below 2^64, with or without a plus sign. -/
def natural? (text : String) : Option Nat :=
  let digits := match text.toList with
    | '+' :: rest => rest
    | rest => rest
  if ! digits.isEmpty ∧ digits.all Char.isDigit ∧ Decimal.natOfDigits digits < UInt64.size then
    some (Decimal.natOfDigits digits)
  else none

/-- The state of a switch in words of either case. -/
def switch? (text : String) : Option Bool :=
  let word := String.ofList (text.toList.map Char.toLower)
  if word ∈ ["y", "yes", "t", "true", "on", "1"] then some true
  else if word ∈ ["n", "no", "f", "false", "off", "0"] then some false
  else none

/-- Gives a setting its value; nothing when the text is none. A path is not empty. -/
def Options.set? (options : Options) (setting : Setting) (text : String) : Option Options :=
  match setting with
  | .socketUrl => some { options with socketUrl := text }
  | .nodeUrl => some { options with nodeUrl := text }
  | .debug => (switch? text).map fun debug => { options with debug }
  | .showAll => (switch? text).map fun showAll => { options with showAll }
  | .params => if text.isEmpty then none else some { options with params := some text }
  | .maxInFlight => (natural? text).map fun maxInFlight => { options with maxInFlight }
  | .queueCapacity => (natural? text).map fun queueCapacity => { options with queueCapacity }
  | .drainSeconds => (natural? text).map fun drainSeconds => { options with drainSeconds }
  | .usdPrice => (Decimal.ofText? text).map fun usdPrice => { options with usdPrice }

/-- What a command line asks for. -/
inductive Request
  | run (options : Options)
  /-- A description of the program. -/
  | help
  | misuse

/-- An argument before its first equals sign, and what follows the sign. -/
def splitValue (argument : List Char) : List Char × Option (List Char) :=
  match argument.dropWhile (· ≠ '=') with
  | _ :: value => (argument.takeWhile (· ≠ '='), some value)
  | [] => (argument, none)

/-- The value of an option in the argument behind it. -/
def isValue : List Char → Bool
  | ['-'] => true
  | '-' :: _ => false
  | _ => true

/-- Takes the variables of settings that were not given. -/
def complete (lookup : String → Option String) (given : List Setting) (options : Options) : Request :=
  let result := Setting.all.foldlM (fun options setting =>
    if setting ∈ given then some options
    else match setting.environmentName?.bind lookup with
      | some text => options.set? setting text
      | none => some options) options
  match result with
  | some options => .run options
  | none => .misuse

/-- What an argument is, seen alone. -/
inductive Argument
  | help
  /-- Only values may follow, and there are none to follow. -/
  | stop
  | switch (setting : Setting)
  | given (setting : Setting) (value : List Char)
  /-- An option whose value is the argument behind it. -/
  | open (setting : Setting)
  | misuse

namespace Argument

def ofLong (argument : List Char) : Argument :=
  let (name, value) := splitValue argument
  let name := String.ofList name
  if (name = "--help" ∨ name = "--version") ∧ value.isNone then .help
  else match Setting.all.find? (·.name = name), value with
    | none, _ => .misuse
    | some setting, none => if setting.isSwitch then .switch setting else .open setting
    | some setting, some value => if setting.isSwitch then .misuse else .given setting value

def ofChars : List Char → Argument
  | ['-', '-'] => .stop
  | '-' :: '-' :: rest => ofLong ('-' :: '-' :: rest)
  | '-' :: c :: _ => if c = 'h' ∨ c = 'V' then .help else .misuse
  | _ => .misuse

end Argument

/-- The settings that were given, each once, and their values. -/
structure Given where
  settings : List Setting
  options : Options

/-- Gives a setting its value for the first time. -/
def Given.set? (given : Given) (setting : Setting) (value : List Char) : Option Given :=
  if setting ∈ given.settings then none
  else (given.options.set? setting (String.ofList value)).map fun options =>
    ⟨setting :: given.settings, options⟩

/-- Takes one argument after the other. -/
def scan (lookup : String → Option String) (given : Given) : List (List Char) → Request
  | [] => complete lookup given.settings given.options
  | argument :: rest =>
    let next (given : Option Given) : Request :=
      match given with
      | some given => scan lookup given rest
      | none => .misuse
    match Argument.ofChars argument with
    | .help => .help
    | .misuse => .misuse
    | .stop => if rest.isEmpty then complete lookup given.settings given.options else .misuse
    | .switch setting => next (given.set? setting ['t', 'r', 'u', 'e'])
    | .given setting value => next (given.set? setting value)
    | .open setting =>
      match rest with
      | [] => .misuse
      | value :: rest =>
        match if isValue value then given.set? setting value else none with
        | some given => scan lookup given rest
        | none => .misuse

/-- Reads a command line in an environment. -/
def Request.ofArguments (lookup : String → Option String) (arguments : List String) : Request :=
  scan lookup ⟨[], {}⟩ (arguments.map String.toList)

end MempoolWatch.CommandLine
