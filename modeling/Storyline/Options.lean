import Storyline.Calendar.Written

/-!
# Options

What can be asked of the program on its command line. Words are taken from left to right; the first
that asks for help or for the version, or that is wrong, decides.

* `Options.parse`: what the words of a command line ask for.
-/

namespace Storyline

/-- How a game is to be played. -/
structure Options where
  /-- The folder of the scenarios. -/
  scenarios : Option String
  /-- The file of the configuration, if it is not the user's. -/
  config : Option String
  start : Date
  /-- After how many days to stop. -/
  days : UInt32
  sandbox : Bool
  seed : Option UInt64
  deriving DecidableEq, Repr

/-- What a command line asks for. -/
inductive Request where
  | play (options : Options)
  | help
  | version
  | refused
  deriving DecidableEq, Repr

namespace Options

/-! ## Values -/

/-- 1 January 2024. -/
def firstDay : Date := ⟨739251, by omega, by omega⟩

theorem ofCivil?_firstDay : Date.ofCivil? 2024 1 1 = some firstDay := by decide

/-- How many days are played unless something else is said. -/
def defaultDays : UInt32 := 400

/-- A path has at least one character. -/
def pathValue? (value : List Char) : Option String :=
  if value.isEmpty then none else some (String.ofList value)

def dateValue? (value : List Char) : Option Date :=
  match Date.read value with
  | .ok date => some date
  | .error _ => none

/-- An integer of 32 bits without a sign. Its numeral may have one. -/
def word32Value? (value : List Char) : Option UInt32 := do
  let n ← Text.integer? value
  if 0 ≤ n ∧ n ≤ 0xFFFFFFFF then some (UInt32.ofNat n.toNat) else none

/-- An integer of 64 bits without a sign. Its numeral may have a plus sign. -/
def word64Value? (value : List Char) : Option UInt64 := do
  let n ← Text.natural? value
  if n ≤ 0xFFFFFFFFFFFFFFFF then some (UInt64.ofNat n) else none

/-! ## Settings -/

/-- The options that have been given so far. -/
structure Given where
  scenarios : Option String := none
  config : Option String := none
  start : Option Date := none
  days : Option UInt32 := none
  sandbox : Bool := false
  seed : Option UInt64 := none

def Given.options (g : Given) : Options where
  scenarios := g.scenarios
  config := g.config
  start := g.start.getD firstDay
  days := g.days.getD defaultDays
  sandbox := g.sandbox
  seed := g.seed

/-- The names of the options that have a value. -/
inductive Name where
  | scenarios
  | config
  | start
  | days
  | seed
  deriving DecidableEq, Repr

/-- The option of the given name. -/
def Name.ofText? (name : List Char) : Option Name :=
  match String.ofList name with
  | "scenarios" => some .scenarios
  | "config" => some .config
  | "start" => some .start
  | "days" => some .days
  | "seed" => some .seed
  | _ => none

/-- A first value for an option; there must be none yet. -/
def first? {α : Type} (old value : Option α) : Option (Option α) :=
  match old, value with
  | none, some a => some (some a)
  | _, _ => none

/-- The options with a value for one of them, unless it has one or the value is wrong. -/
def Given.set? (g : Given) (name : Name) (value : List Char) : Option Given :=
  match name with
  | .scenarios => (first? g.scenarios (pathValue? value)).map fun v => { g with scenarios := v }
  | .config => (first? g.config (pathValue? value)).map fun v => { g with config := v }
  | .start => (first? g.start (dateValue? value)).map fun v => { g with start := v }
  | .days => (first? g.days (word32Value? value)).map fun v => { g with days := v }
  | .seed => (first? g.seed (word64Value? value)).map fun v => { g with seed := v }

/-! ## Words -/

/-- A word of a command line. -/
inductive Word where
  | help
  | version
  | sandbox
  /-- An option whose value is the next word. -/
  | option (name : Name)
  /-- An option and its value. -/
  | assigned (name : Name) (value : List Char)
  /-- The end of the options. -/
  | ending
  | other
  deriving DecidableEq, Repr

/-- The word of a text. -/
def Word.ofText (text : List Char) : Word :=
  match text with
  | ['-', '-'] => .ending
  | '-' :: '-' :: rest =>
    let name := rest.takeWhile (· != '=')
    match rest.dropWhile (· != '='), String.ofList name with
    | [], "help" => .help
    | [], "version" => .version
    | [], "sandbox" => .sandbox
    | [], _ => (Name.ofText? name).elim .other .option
    | _ :: value, _ => (Name.ofText? name).elim .other fun name => .assigned name value
  | '-' :: 'h' :: _ => .help
  | '-' :: 'V' :: _ => .version
  | _ => .other

/-- Whether a word can be the value of the option before it: it is a hyphen or begins with something
else. -/
def isValue : List Char → Bool
  | '-' :: _ :: _ => false
  | _ => true

/-- What words ask for after the options given so far. -/
def parseFrom (g : Given) : List (List Char) → Request
  | [] => .play g.options
  | word :: rest =>
    match Word.ofText word with
    | .help => .help
    | .version => .version
    | .sandbox => if g.sandbox then .refused else parseFrom { g with sandbox := true } rest
    | .assigned name value =>
      match g.set? name value with
      | some g => parseFrom g rest
      | none => .refused
    | .option name =>
      match rest with
      | value :: rest =>
        match if isValue value then g.set? name value else none with
        | some g => parseFrom g rest
        | none => .refused
      | [] => .refused
    | .ending => if rest.isEmpty then .play g.options else .refused
    | .other => .refused

/-- What the words of a command line ask for. -/
def parse (words : List String) : Request :=
  parseFrom {} (words.map String.toList)

/-! ## Help -/

def versionLine : String := "scenario_director 0.1.0"

def helpLines : List String :=
  ["Plays authored event scenarios against a terminal dialog box",
    "",
    "Usage: scenario_director [OPTIONS]",
    "",
    "Options:",
    "      --scenarios <SCENARIOS>  Directory of scenario graphs (*.json)",
    "      --config <CONFIG>        Config file; defaults to the user config directory",
    "      --start <START>          First simulated day [default: 2024-01-01]",
    "      --days <DAYS>            Stop after this many simulated days [default: 400]",
    "      --sandbox                Play the first scenario without running the calendar",
    "      --seed <SEED>            ",
    "  -h, --help                   Print help",
    "  -V, --version                Print version"]

end Options

end Storyline
