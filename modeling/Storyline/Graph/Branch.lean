import Storyline.Graph.Basic
import Storyline.Notice
import Storyline.Random.Generator

/-!
# Branches at random

A random node goes on through one of its linked outcomes, taken in the order of their positions.

* `Graph.pickUniform`: each outcome alike.
* `Graph.pickWeighted`: each outcome by its weight; if no linked outcome has any, each alike.
-/

namespace Storyline

namespace Kind

/-- The weights of the outcomes of a random node. -/
def weights : Kind → List Nat
  | .random outcomes => List.replicate outcomes.length 1
  | .weightedRandom outcomes => outcomes.map (·.weight.toNat)
  | _ => []

end Kind

namespace Graph

/-- The linked outcomes of a node with their weights. -/
def candidates (g : Graph) (id : NodeId) : List (Node × Nat) :=
  match g.node? id with
  | none => []
  | some n =>
    n.kind.weights.zipIdx.filterMap fun (weight, i) =>
      (g.next? id (outcomeOutlet i)).map fun target => (target, weight)

/-- The candidate at a position, if there are any: a draw among all, each alike. -/
def pickAmong {α : Type} (as : List α) (gen : Generator) : Option α × Generator :=
  if as.isEmpty then (none, gen)
  else
    let (i, gen) := gen.draw (.uniform as.length)
    (as[i]?, gen)

/-- The linked outcome that is drawn, each alike. -/
def pickUniform (g : Graph) (id : NodeId) (gen : Generator) : Option Node × Generator :=
  pickAmong ((g.candidates id).map Prod.fst) gen

def totalWeight {α : Type} : List (α × Nat) → Nat
  | [] => 0
  | (_, weight) :: rest => weight + totalWeight rest

/-- The first candidate at which the weights so far exceed the number. -/
def atShare {α : Type} : List (α × Nat) → Nat → Option α
  | [], _ => none
  | (a, weight) :: rest, n => if n < weight then some a else atShare rest (n - weight)

/-- The linked outcome that is drawn by weight, and the warnings on the way. -/
def pickWeighted (g : Graph) (id : NodeId) (gen : Generator) :
    Option Node × Generator × List Notice :=
  let candidates := g.candidates id
  let total := totalWeight candidates
  if candidates.isEmpty then (none, gen, [])
  else if total = 0 then
    let (target, gen) := pickAmong (candidates.map Prod.fst) gen
    (target, gen, [.weightsZero g.name id])
  else
    let (n, gen) := gen.draw (.shares total)
    (atShare candidates n, gen, [])

end Graph

end Storyline
