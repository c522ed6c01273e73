import Storyline.Agenda
import Storyline.Graph.Branch
import Storyline.Host
import Storyline.Notifier
import Storyline.Session

/-!
# The effects of nodes

What reaching a node does: calls to the host, notices, continuations for later dates, and the step
that the session takes next. Effects depend on the current day and on nothing else of the host.
-/

namespace Storyline

/-- What happens in the course of a play. -/
inductive Event where
  | notice (notice : Notice)
  | sent (notification : Notification)
  | call (call : Call)
  deriving DecidableEq, Repr

/-- How a session goes on after a node. -/
inductive Step where
  /-- With the given node; without one the scenario has run out. -/
  | advance (next : Option NodeId)
  | suspend (suspension : Suspension)
  | finish
  deriving DecidableEq, Repr

/-- The effects of a node. -/
structure Effects where
  step : Step
  /-- The category of the session after the node. -/
  category : Category
  generator : Generator
  /-- The continuations to schedule, in this order. -/
  scheduled : List (Date × Continuation)
  /-- The calls to make and the notices to give, in this order. -/
  events : List Event

namespace Graph

/-- The step through an outlet. -/
def stepThrough (g : Graph) (id : NodeId) (outlet : String) : Step :=
  .advance ((g.next? id outlet).map Node.id)

/-! ## Time -/

/-- How many days the calendar moves: none if the date would lie beyond it. -/
def skipDays (unit : Period) (amount : UInt32) (today : Date) : Int :=
  match unit.after? amount today with
  | some date => date.day - today.day
  | none => 0

/-- The events of a move of the calendar. -/
def skipEvents (id : NodeId) (unit : Period) (amount : UInt32) (today : Date) : List Event :=
  let days := skipDays unit amount today
  let overflow :=
    match unit.after? amount today with
    | some _ => []
    | none => [.notice (.skipOverflow id unit amount today)]
  overflow ++ [.notice (.advancing id days), .call (.advance days)]

/-! ## Later dates -/

/-- What a delay schedules, or the notice why it schedules nothing. -/
def delayed (g : Graph) (id : NodeId) (category : Category) (today : Date) (delay : Delay)
    (i : Nat) : Except Notice (Date × Continuation) :=
  match g.next? id (delayOutlet i) with
  | none => .error (.delayUnconnected id i)
  | some target =>
    match delay.unit.after? delay.amount today with
    | none => .error (.delayOverflow id i)
    | some due => .ok (due, ⟨g, target.id, category⟩)

/-- What the delays schedule and the notices about the others, each in order of the delays. -/
def delays (g : Graph) (id : NodeId) (category : Category) (today : Date) (delays : List Delay) :
    List (Except Notice (Date × Continuation)) :=
  delays.zipIdx.map fun (delay, i) => g.delayed id category today delay i

/-- What is scheduled among the given outcomes. -/
def scheduledOf (outcomes : List (Except Notice (Date × Continuation))) :
    List (Date × Continuation) :=
  outcomes.filterMap fun
    | .ok entry => some entry
    | .error _ => none

/-- The notices among the given outcomes. -/
def noticesOf (outcomes : List (Except Notice (Date × Continuation))) : List Event :=
  outcomes.filterMap fun
    | .ok _ => none
    | .error notice => some (.notice notice)

/-! ## All kinds -/

/-- The effects of reaching a node. -/
def effects (g : Graph) (node : Node) (category : Category) (today : Date) (gen : Generator) :
    Effects :=
  let through (outlet : String) (events : List Event) : Effects :=
    ⟨g.stepThrough node.id outlet, category, gen, [], events⟩
  match node.kind with
  | .start own => { through startOutlet [] with category := own }
  | .message image text choices speaker =>
    ⟨.suspend (.choice node.id choices.length), category, gen, [],
      [.call (.display ⟨category, image, text, choices, speaker⟩)]⟩
  | .prompt _ _ => through usualOutlet [.notice (.promptSkipped node.id)]
  | .timeSkip unit amount =>
    ⟨.suspend (.timeAdvance node.id), category, gen, [], skipEvents node.id unit amount today⟩
  | .result edits => through usualOutlet [.call (.edit edits)]
  | .random _ =>
    let (target, gen) := g.pickUniform node.id gen
    ⟨.advance (target.map Node.id), category, gen, [], []⟩
  | .weightedRandom _ =>
    let (target, gen, notices) := g.pickWeighted node.id gen
    ⟨.advance (target.map Node.id), category, gen, [], notices.map .notice⟩
  | .late ds =>
    let outcomes := g.delays node.id category today ds
    { through usualOutlet (noticesOf outcomes) with scheduled := scheduledOf outcomes }
  | .shop carts => through usualOutlet (carts.map fun c => .call (.trade c.action c.item))
  | .final => ⟨.finish, category, gen, [], []⟩

end Graph

end Storyline
