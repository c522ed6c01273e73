import Storyline.Graph.Basic
import Storyline.Notice

/-!
# Ends within reach

Whether a walk from the start node can come to an end node at all, along links of any outlet.

* `Graph.visit`: the nodes within reach of some others.
* `Graph.warnings`: a graph without an end within reach is usable, but worth a warning.
-/

namespace Storyline

namespace Graph

/-- The nodes to which a node is linked. -/
def successors (g : Graph) (id : NodeId) : List NodeId :=
  (g.links.filter (·.source == id)).map Link.target

theorem length_erase_of_find? {unvisited : List Node} {id : NodeId} {n : Node}
    (h : unvisited.find? (·.id == id) = some n) :
    (unvisited.erase n).length < unvisited.length := by
  have hm := List.mem_of_find?_eq_some h
  have := List.length_pos_of_mem hm
  rw [List.length_erase_of_mem hm]
  omega

/-- The nodes within reach of those in the queue, as far as they are unvisited. -/
def visit (g : Graph) (unvisited : List Node) : List NodeId → List Node
  | [] => []
  | id :: queue =>
    match h : unvisited.find? (·.id == id) with
    | none => g.visit unvisited queue
    | some n =>
      have := length_erase_of_find? h
      n :: g.visit (unvisited.erase n) (queue ++ g.successors id)
termination_by queue => (unvisited.length, queue.length)

/-- Whether an end node is within reach of the start node. -/
def reachesFinal (g : Graph) : Bool :=
  match g.start? with
  | some n => (g.visit g.nodes [n.id]).any (·.kind.isFinal)
  | none => false

def warnings (g : Graph) : List Notice :=
  if g.reachesFinal then [] else [.endUnreachable g.name]

end Graph

end Storyline
