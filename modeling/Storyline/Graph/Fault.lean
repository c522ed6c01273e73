import Storyline.Json.Fault
import Storyline.Node

/-!
# Why a document is no graph
-/

namespace Storyline

/-- Why a document, or a text, is no graph. -/
inductive GraphFault where
  | noStart (graph : String)
  | manyStarts (graph : String) (count : Nat)
  | duplicateNode (graph : String) (node : NodeId)
  | unknownNode (graph : String) (node : NodeId)
  | invalidOutlet (node : NodeId) (outlet : String)
  | outletTaken (node : NodeId) (outlet : String)
  | unreadable (fault : Json.Fault)
  deriving DecidableEq, Repr

def GraphFault.message : GraphFault → String
  | .noStart graph => s!"graph '{graph}' has no start node"
  | .manyStarts graph count => s!"graph '{graph}' has {count} start nodes, expected exactly one"
  | .duplicateNode graph node => s!"graph '{graph}' declares node '{node}' twice"
  | .unknownNode graph node => s!"graph '{graph}' references unknown node '{node}'"
  | .invalidOutlet node outlet => s!"node '{node}' has no port named '{outlet}'"
  | .outletTaken node outlet => s!"port '{outlet}' of node '{node}' is already connected"
  | .unreadable fault => s!"invalid graph document: {fault.message}"

end Storyline
