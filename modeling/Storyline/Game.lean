import Storyline.Console
import Storyline.Director
import Storyline.Text.Numeral

/-!
# Games

A game is played on a console: the active scenario runs until it waits for an answer, which is
read from a line of input; once nothing is being played, the days that have passed are announced,
and then the clock moves on.

* `Game.step`: the next move of a game, or why it has ended.
* `Game.run`: the moves of a game up to its end.
-/

namespace Storyline

structure Game where
  director : Director
  stage : Stage Console
  /-- The lines of input that have not been read. One that is no text is missing. -/
  input : List (Option String)
  /-- How many days have been announced. -/
  days : Nat
  /-- After how many announced days the clock stops. -/
  limit : Nat

namespace Game

inductive End where
  | finished
  /-- A line of input is no text. -/
  | inputUnread
  /-- The clock has come to the end of the calendar. -/
  | calendarOver
  deriving DecidableEq, Repr

/-- A game after a move, and what happened. -/
structure Move where
  game : Game
  events : List Event

/-- The time that passes between two looks at a running scenario, in nanoseconds. -/
def frame : Nat := 16000000

/-- The choice that a line of input stands for: a number of 64 bits between blanks, or else
zero. -/
def choiceOf (line : String) : Nat :=
  match Text.natural? (Text.trim line.toList) with
  | some n => if n ≤ 0xFFFFFFFFFFFFFFFF then n else 0
  | none => 0

def new (director : Director) (interpreter : Interpreter) (console : Console) (limit : Nat)
    (input : List (Option String)) : Move :=
  let t := director.launch ⟨interpreter, console⟩
  ⟨⟨director, t.stage, input, 0, limit⟩, t.events⟩

def console (g : Game) : Console :=
  g.stage.host

def after (g : Game) (t : Turn Console) : Move :=
  ⟨{ g with stage := t.stage }, t.events⟩

/-- Whether the next move reads a line of input. -/
def wantsInput (g : Game) : Bool :=
  match g.stage.interpreter.session, g.stage.interpreter.phase with
  | some _, .paused (.choice ..) => true
  | _, _ => false

/-! ## Moves -/

/-- Answers with a choice. Once the input is used up every line is empty. -/
def answer (g : Game) : Except End Move :=
  match g.input with
  | [] => .ok (g.after (g.stage.choose (choiceOf "")))
  | none :: _ => .error .inputUnread
  | some line :: rest => .ok ({ g with input := rest }.after (g.stage.choose (choiceOf line)))

/-- Lets the scenario go on once the time skip has ended. -/
def resume (g : Game) : Move :=
  let (finished, console) := g.console.takeArrival
  let stage := { g.stage with host := console }
  g.after (if finished then stage.skipEnded else .still stage)

/-- The next move while nothing is being played. -/
def idleStep (g : Game) : Except End Move :=
  if g.console.gameOver || g.director.config.sandbox then .error .finished
  else
    match g.console.nextPending? with
    | some (day, console) =>
      .ok ({ g with days := g.days + 1 }.after
        (g.director.announce day { g.stage with host := console }))
    | none =>
      if !g.console.ticking || g.limit ≤ g.days then .error .finished
      else
        match g.console.tomorrow? with
        | some console => .ok (g.after (.still { g.stage with host := console }))
        | none => .error .calendarOver

def step (g : Game) : Except End Move :=
  if g.console.offCalendar then .error .calendarOver
  else if g.stage.interpreter.isActive then
    match g.stage.interpreter.phase with
    | .running => .ok (g.after (Director.tick frame g.stage))
    | .paused (.choice ..) => g.answer
    | .paused (.timeAdvance _) => .ok g.resume
    | .idle => g.idleStep
  else g.idleStep

/-- The end of a game and its last state, if it comes within so many moves. -/
def run : Nat → Game → Option (End × Game)
  | 0, _ => none
  | moves + 1, g =>
    match g.step with
    | .ok move => run moves move.game
    | .error why => some (why, g)

end Game

end Storyline
