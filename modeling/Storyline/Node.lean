import Storyline.Calendar.Period

/-!
# Nodes

A scenario is a graph of nodes of ten kinds. A node says what happens when it is reached; where the
scenario goes on is said by the links of its outlets.
-/

namespace Storyline

/-- The name of a node, unique in its graph. -/
abbrev NodeId := String

/-- The category of a scenario, which its start node declares. -/
abbrev Category := String

/-- The category of a start node that declares none. -/
def defaultCategory : Category := "general"

/-! ## What nodes do -/

/-- What a player owns. A pet is there or not. -/
inductive Resource where
  | happiness
  | money
  | salary
  | pet
  deriving DecidableEq, Repr

/-- Whether an edit changes a resource by its value or sets it to that value. -/
inductive EditMode where
  | add
  | set
  deriving DecidableEq, Repr

structure Edit where
  resource : Resource
  mode : EditMode
  value : Int64
  deriving DecidableEq, Repr

/-- A possible outcome with its weight among the others. -/
structure WeightedOutcome where
  label : String
  weight : UInt32
  deriving DecidableEq, Repr

/-- A continuation so many units of time ahead. -/
structure Delay where
  unit : Period
  amount : UInt32
  deriving DecidableEq, Repr

/-- What is done with an item in a shop. -/
inductive TradeAction where
  | buy
  | sell
  | give
  deriving DecidableEq, Repr

structure Item where
  name : String
  price : Int64
  deriving DecidableEq, Repr

/-- One transaction of a shop. -/
structure Cart where
  action : TradeAction
  item : Item
  deriving DecidableEq, Repr

/-! ## Kinds -/

/-- The kinds of nodes with their contents. -/
inductive Kind where
  /-- The entry of a scenario. -/
  | start (category : Category)
  /-- A message to the player, who answers with a choice. -/
  | message (image : Option String) (text : String) (choices : List String)
      (speaker : Option String)
  /-- A question for free text, which is passed over. -/
  | prompt (text : String) (choices : List String)
  /-- A move of the calendar. -/
  | timeSkip (unit : Period) (amount : UInt32)
  /-- Changes of the player's resources. -/
  | result (edits : List Edit)
  /-- A branch at random, each outcome alike. -/
  | random (outcomes : List String)
  /-- A branch at random by weight. -/
  | weightedRandom (outcomes : List WeightedOutcome)
  /-- Continuations on later dates. -/
  | late (delays : List Delay)
  /-- Transactions of a shop. -/
  | shop (carts : List Cart)
  /-- The end of a scenario. -/
  | final
  deriving DecidableEq, Repr

structure Node where
  id : NodeId
  kind : Kind
  deriving DecidableEq, Repr

namespace Kind

def label : Kind → String
  | .start _ => "Start"
  | .message .. => "Message"
  | .prompt .. => "Prompt"
  | .timeSkip .. => "TimeSkip"
  | .result _ => "Result"
  | .random _ => "Random"
  | .weightedRandom _ => "MultiRandom"
  | .late _ => "LateResult"
  | .shop _ => "Shop"
  | .final => "End"

/-- Whether the kind is that of an entry. -/
def isStart : Kind → Bool
  | .start _ => true
  | _ => false

/-- Whether the kind is that of an end. -/
def isFinal : Kind → Bool
  | .final => true
  | _ => false

end Kind

end Storyline
