import Storyline.Director

/-!
# The command loop

A director can be driven by commands that several clients send. They are handled one after the other
in the order in which they arrive, and each is answered with the status after it, as long as someone
listens.

* `CommandLoop.run`: handles commands until one shuts the loop down.
-/

namespace Storyline

/-- What a client can ask for. -/
inductive Command where
  | tick (elapsed : Nat)
  | choose (choice : Nat)
  | skipEnded
  | dayPassed (date : Date)
  | monthPassed (date : Date)
  | yearPassed (date : Date)
  | launch
  | start (name : String)
  | shutdown
  deriving DecidableEq, Repr

/-- What happens to the loop: a command arrives, or those who listened to its answers have gone. -/
inductive Signal where
  | command (command : Command)
  | deaf
  deriving DecidableEq, Repr

variable {H : Type} [Host H]

/-- The director's operation for a command. -/
def Director.handle (d : Director) (s : Stage H) : Command → Turn H
  | .tick elapsed => Director.tick elapsed s
  | .choose choice => s.choose choice
  | .skipEnded => s.skipEnded
  | .dayPassed _ => Director.dayPassed s
  | .monthPassed _ => d.monthPassed s
  | .yearPassed date => Director.yearPassed date s
  | .launch => d.launch s
  | .start name => (d.start name s).2
  | .shutdown => s.tell .shuttingDown

namespace CommandLoop

/-- The end of a loop: the stage, what happened, and the statuses that were listened to. -/
structure Result (H : Type) where
  stage : Stage H
  events : List Event
  statuses : List Status

/-- Handles what arrives until the loop is shut down or nothing more arrives. -/
def run (d : Director) : Bool → Stage H → List Signal → Result H
  | _, s, [] => ⟨s, [], []⟩
  | _, s, .deaf :: rest => run d false s rest
  | _, s, .command .shutdown :: _ =>
    let t := d.handle s .shutdown
    ⟨t.stage, t.events, []⟩
  | listening, s, .command c :: rest =>
    let t := d.handle s c
    let r := run d listening t.stage rest
    let status := t.stage.interpreter.status
    ⟨r.stage, t.events ++ r.events, if listening then status :: r.statuses else r.statuses⟩

end CommandLoop

end Storyline
