import Storyline.Calendar.Period
import Storyline.Calendar.Written

/-!
# Notices

What the library tells its operator about, in one line each: a level, a sentence, and the values
that belong to it.
-/

namespace Storyline

/-- How serious a notice is. -/
inductive Level where
  | info
  | warn
  | error
  deriving DecidableEq, Repr

def Level.word : Level → String
  | .info => "INFO"
  | .warn => "WARN"
  | .error => "ERROR"

/-- Something worth telling. -/
inductive Notice where
  -- graphs
  | endUnreachable (graph : String)
  | weightsZero (graph node : String)
  -- sessions
  | scenarioStarted (scenario category : String)
  | scenarioUnusable (reason : String)
  | lateStarted (scenario node : String)
  | lateNodeMissing (scenario node : String)
  | nodeUnresolved (scenario node : String)
  | choiceUnexpected (choice : Nat)
  | choiceUnknown (choice choices : Nat)
  | scenarioFinished (scenario category : String)
  | gameOver
  -- nodes
  | promptSkipped (node : String)
  | skipOverflow (node : String) (unit : Period) (amount : UInt32) (today : Date)
  | advancing (node : String) (days : Int)
  | delayUnconnected (node : String) (index : Nat)
  | delayOverflow (node : String) (index : Nat)
  -- the library and the director
  | duplicateName (scenario : String)
  | salaryMissing (scenario : String)
  | libraryLoaded (count : Nat)
  | nothingToPlay
  | scenarioMissing (scenario : String)
  | yearPassed (date : Date)
  | shuttingDown
  -- configuration
  | configIgnored (path reason : String)
  deriving DecidableEq, Repr

namespace Notice

def level : Notice → Level
  | .endUnreachable _ | .weightsZero .. | .nodeUnresolved .. | .choiceUnexpected _
  | .choiceUnknown .. | .skipOverflow .. | .delayOverflow .. | .duplicateName _
  | .salaryMissing _ | .configIgnored .. => .warn
  | .scenarioUnusable _ | .lateNodeMissing .. | .promptSkipped _ | .nothingToPlay
  | .scenarioMissing _ => .error
  | .scenarioStarted .. | .lateStarted .. | .scenarioFinished .. | .gameOver | .advancing ..
  | .delayUnconnected .. | .libraryLoaded _ | .yearPassed _ | .shuttingDown => .info

/-- The sentence of a notice and its values. -/
def sentence : Notice → String
  | .endUnreachable graph => s!"no end node is reachable from the start node graph={graph}"
  | .weightsZero graph node =>
    s!"all connected outcomes have zero weight, picking uniformly graph={graph} node={node}"
  | .scenarioStarted scenario category =>
    s!"scenario has started scenario={scenario} category={category}"
  | .scenarioUnusable reason => s!"scenario will not process error={reason}"
  | .lateStarted scenario node => s!"late scenario has started scenario={scenario} node={node}"
  | .lateNodeMissing scenario node =>
    s!"late event node is missing, it will not resume scenario={scenario} node={node}"
  | .nodeUnresolved scenario node =>
    s!"unresolved node, ending scenario scenario={scenario} node={node}"
  | .choiceUnexpected choice =>
    s!"choice received while no message is waiting choice={choice}"
  | .choiceUnknown choice choices =>
    s!"unknown choice, still waiting choice={choice} choices={choices}"
  | .scenarioFinished scenario category =>
    s!"scenario has finished scenario={scenario} category={category}"
  | .gameOver => "game over"
  | .promptSkipped node =>
    s!"prompt nodes are not supported, continuing through output node={node}"
  | .skipOverflow node unit amount today =>
    s!"time skip overflows the calendar node={node} unit={unit.label} amount={amount.toNat} "
      ++ s!"today={today.text}"
  | .advancing node days => s!"advancing calendar node={node} days={days}"
  | .delayUnconnected node index =>
    s!"late result entry has no connected node, skipping node={node} info={index}"
  | .delayOverflow node index =>
    s!"late result date overflows the calendar, skipping node={node} info={index}"
  | .duplicateName scenario =>
    s!"duplicate scenario name, keeping the last one scenario={scenario}"
  | .salaryMissing scenario => s!"salary scenario is not in the library scenario={scenario}"
  | .libraryLoaded count => s!"scenario library loaded count={count}"
  | .nothingToPlay => "sandbox mode has no scenario to play"
  | .scenarioMissing scenario =>
    s!"cannot find the scenario, it will not process scenario={scenario}"
  | .yearPassed date =>
    s!"year passed, the game ends after the current scenario date={date.text}"
  | .shuttingDown => "engine shutting down"
  | .configIgnored path reason => s!"ignoring unreadable config path={path} error={reason}"

/-- A notice as one line. -/
def line (notice : Notice) : String :=
  notice.level.word ++ " " ++ notice.sentence

end Notice

end Storyline
