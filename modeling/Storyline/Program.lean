import Storyline.Config.File
import Storyline.Game
import Storyline.Library.Folder
import Storyline.Options

/-!
# The program

A run of the program from its command line to its exit code.

* `Program.prepare`: what a command line leads to, a game or an exit at once.
* `Program.run`: a whole run.
-/

namespace Storyline.Program

/-- What a run leaves behind: an exit code, the lines printed, and those for the operator. -/
structure Outcome where
  code : Nat
  printed : List String
  errors : List String
  deriving DecidableEq, Repr

/-- What a command line leads to. -/
inductive Prepared where
  | over (outcome : Outcome)
  | game (move : Game.Move)

/-! ## Exits -/

def failed (printed : List String) (failure : Failure) : Outcome :=
  ⟨1, printed, failure.report⟩

def refused : Outcome :=
  ⟨2, [], ["error: these arguments cannot be used", "", "For more information, try '--help'."]⟩

def printedLines (g : Game) : List String :=
  g.console.printed.toList.flatMap Console.Entry.lines

/-- What is printed after a finished game. -/
def closingLines (g : Game) : List String :=
  "" :: g.console.player.report

def exitOf (why : Game.End) (g : Game) : Outcome :=
  match why with
  | .finished => ⟨0, printedLines g ++ closingLines g, []⟩
  | .inputUnread => failed (printedLines g) .inputUnread
  | .calendarOver => ⟨101, printedLines g, ["the calendar has no further day"]⟩

/-! ## Preparation -/

/-- The configuration of a game: what the file says, as far as no option says something else. -/
def adjust (o : Options) (c : Config) : Config :=
  { c with
    scenarioDir := some ((o.scenarios <|> c.scenarioDir).getD "scenarios")
    sandbox := c.sandbox || o.sandbox
    seed := o.seed <|> c.seed }

variable {m : Type → Type} [Monad m] [Files m]

/-- The configuration in the file that the options name, or else in that of the user. -/
def configOf (o : Options) (userFolder : String) : m (Except Failure Config) := do
  match o.config with
  | some path => Config.load path
  | none => return .ok (← Config.loadUser userFolder).1

/-- A game with the given options, at its beginning. -/
def begin (o : Options) (userFolder : String) (entropy : Generator)
    (input : List (Option String)) : m Prepared := do
  match ← configOf o userFolder with
  | .error failure => return .over (failed [] failure)
  | .ok config =>
    match ← Director.load (adjust o config) with
    | .error failure => return .over (failed [] (.scenariosNotLoaded failure))
    | .ok (director, _) =>
      return .game (Game.new director (director.interpreter entropy) (.new o.start .initial)
        o.days.toNat input)

/-- What a command line leads to. -/
def prepare (words : List String) (userFolder : String) (entropy : Generator)
    (input : List (Option String)) : m Prepared :=
  match Options.parse words with
  | .help => return .over ⟨0, Options.helpLines, []⟩
  | .version => return .over ⟨0, [Options.versionLine], []⟩
  | .refused => return .over refused
  | .play options => begin options userFolder entropy input

/-! ## Whole runs -/

/-- The lines of an input. Each ends with a line feed, with or without a carriage return before it;
the last need not end at all. -/
def inputLines (text : List Char) : List (Option String) :=
  let line (cs : List Char) : Option String :=
    some (String.ofList (if cs.getLast? = some '\r' then cs.dropLast else cs))
  match (text.splitOn '\n').reverse with
  | [] => []
  | last :: lines =>
    lines.reverse.map line ++ if last.isEmpty then [] else [some (String.ofList last)]

/-- A run of the program, if it ends within so many moves. -/
def run (moves : Nat) (words : List String) (userFolder : String) (entropy : Generator)
    (input : List (Option String)) : m (Option Outcome) := do
  match ← prepare words userFolder entropy input with
  | .over outcome => return some outcome
  | .game start => return (Game.run moves start.game).map fun (why, g) => exitOf why g

end Storyline.Program
