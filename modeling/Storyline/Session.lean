import Storyline.Graph.Basic

/-!
# Sessions

The state of the one scenario that is being played, and what can be seen of it from outside.
-/

namespace Storyline

/-- What a session waits for. -/
inductive Suspension where
  /-- The player's choice among so many. -/
  | choice (node : NodeId) (choices : Nat)
  /-- The end of a move of the calendar. -/
  | timeAdvance (node : NodeId)
  deriving DecidableEq, Repr

def Suspension.node : Suspension → NodeId
  | .choice node _ => node
  | .timeAdvance node => node

/-- What an interpreter is doing. -/
inductive Phase where
  | idle
  | running
  | paused (suspension : Suspension)
  deriving DecidableEq, Repr

/-- A scenario that is being played. -/
structure Session where
  graph : Graph
  /-- The next node; none once the links have run out. -/
  current : Option NodeId
  category : Category
  /-- The settling time left after a resumption, in nanoseconds. -/
  settle : Option Nat

/-- A session that begins at a node. -/
def Session.at (graph : Graph) (node : NodeId) (category : Category) : Session :=
  ⟨graph, some node, category, none⟩

structure Status where
  phase : Phase
  scenario : Option String
  current : Option NodeId
  category : Option Category
  pendingLate : Nat
  deriving DecidableEq, Repr

end Storyline
