import Storyline.Graph.Basic
import Storyline.Notice

/-!
# Scenario libraries

The scenarios of a game by name. Of several graphs of one name the last is kept. The names without
that of the salary scenario, in the order in which they first came, are the normal scenarios.

* `Library.ofGraphs`: the library of a list of graphs, and the warnings about it.
-/

namespace Storyline

/-- Graphs by name, and the names of the normal scenarios. -/
structure Library where
  entries : List (String × Graph)
  normal : List String

namespace Library

def empty : Library := ⟨[], []⟩

def find? (l : Library) (name : String) : Option Graph :=
  l.entries.lookup name

/-- Puts a graph in the place of the one of its name, or behind all others. -/
def put (name : String) (g : Graph) : List (String × Graph) → List (String × Graph)
  | [] => [(name, g)]
  | (n, h) :: rest => if n = name then (n, g) :: rest else (n, h) :: put name g rest

/-- Adds a graph, with the warnings about it. -/
def add (salary : String) (l : Library) (g : Graph) : Library × List Notice :=
  let entries := put g.name g l.entries
  if (l.find? g.name).isSome then (⟨entries, l.normal⟩, [.duplicateName g.name])
  else if g.name = salary then (⟨entries, l.normal⟩, [])
  else (⟨entries, l.normal ++ [g.name]⟩, [])

/-- Adds graphs one after the other, with the warnings about them. -/
def addAll (salary : String) : Library → List Graph → Library × List Notice
  | l, [] => (l, [])
  | l, g :: gs =>
    let (l, first) := l.add salary g
    let (l, others) := l.addAll salary gs
    (l, first ++ others)

/-- The library of a list of graphs for a salary scenario of the given name, and the warnings. -/
def ofGraphs (salary : String) (graphs : List Graph) : Library × List Notice :=
  let (l, notices) := empty.addAll salary graphs
  (l, notices ++ if (l.find? salary).isSome then [] else [.salaryMissing salary])

end Library

end Storyline
