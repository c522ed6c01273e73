import Storyline.Calendar.NewDay
import Storyline.Config
import Storyline.Library

/-!
# Directors

A director decides what is played: it owns the library, starts scenarios when months pass or when it
is asked to, and late events once they are due and nothing else is being played.

Its operations act on the stage of its interpreter; what it owns itself never changes.
-/

namespace Storyline

structure Director where
  config : Config
  library : Library

namespace Director

/-- The director of a list of graphs, and the warnings about them. -/
def new (config : Config) (graphs : List Graph) : Director × List Notice :=
  let (library, notices) := Library.ofGraphs config.salaryScenario graphs
  (⟨config, library⟩, notices)

/-- The interpreter with which a director begins. -/
def interpreter (d : Director) (entropy : Generator) : Interpreter :=
  .new d.config.settings entropy

variable {H : Type} [Host H]

/-- Starts the scenario of the given name, and says whether it began. -/
def start (d : Director) (name : String) (s : Stage H) : Bool × Turn H :=
  match d.library.find? name with
  | none => (false, s.tell (.scenarioMissing name))
  | some graph => s.start graph

/-- Begins to play: in a sandbox the first normal scenario, otherwise the clock. -/
def launch (d : Director) (s : Stage H) : Turn H :=
  if d.config.sandbox then
    match d.library.normal with
    | name :: _ => (d.start name s).2
    | [] => s.tell .nothingToPlay
  else s.call .startClock

/-- Starts the earliest late event that is due, if nothing is being played. -/
def startDue (s : Stage H) : Turn H :=
  if s.interpreter.isActive then .still s
  else
    match s.interpreter.agenda.takeDue? (Host.today s.host) with
    | none => .still s
    | some ((_, c), agenda) => ((s.modify fun i => { i with agenda := agenda }).startAt c).2

/-- A day has passed. The boundaries of its month and year are reported before it. -/
def dayPassed (s : Stage H) : Turn H :=
  (s.call .deductDaily).andThen startDue

def monthPassed (d : Director) (s : Stage H) : Turn H :=
  (s.call .creditMonthly).andThen fun s => (d.start d.config.salaryScenario s).2

def yearPassed (date : Date) (s : Stage H) : Turn H :=
  (s.tell (.yearPassed date)).andThen fun s => .still (s.modify Interpreter.requestEnd)

/-- A day begins. What begins with it comes first, so that the salary scenario goes before a late
event that is due on the same day. -/
def announce (d : Director) (day : NewDay) (s : Stage H) : Turn H :=
  let year := if day.newYear then yearPassed day.date s else .still s
  (year.andThen fun s => if day.newMonth then d.monthPassed s else .still s).andThen dayPassed

/-- Lets time pass, in nanoseconds. -/
def tick (elapsed : Nat) (s : Stage H) : Turn H :=
  (s.tick elapsed).andThen startDue

end Director

end Storyline
