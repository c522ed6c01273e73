import Storyline.Graph.Basic

/-!
# Agendas

Continuations that wait for their dates. Those of one date are kept together in the order in which
they were scheduled, the dates in ascending order, so the next one due is always in front.

* `Agenda.toList`: the waiting continuations in the order in which they come out.
-/

namespace Storyline

/-- A node at which a scenario goes on later, in the graph that owns it. -/
structure Continuation where
  graph : Graph
  node : NodeId
  /-- The category of the scenario that scheduled it. -/
  category : Category

/-- Continuations by date. -/
structure Agenda where
  buckets : List (Date × List Continuation)

namespace Agenda

def empty : Agenda := ⟨[]⟩

/-- Puts a continuation behind the others of its date. -/
def insert (date : Date) (c : Continuation) :
    List (Date × List Continuation) → List (Date × List Continuation)
  | [] => [(date, [c])]
  | (d, cs) :: rest =>
    if date < d then (date, [c]) :: (d, cs) :: rest
    else if date = d then (d, cs ++ [c]) :: rest
    else (d, cs) :: insert date c rest

def schedule (a : Agenda) (date : Date) (c : Continuation) : Agenda :=
  ⟨insert date c a.buckets⟩

/-- The earliest continuation due on or before today, and the agenda without it. -/
def takeDue? (a : Agenda) (today : Date) : Option ((Date × Continuation) × Agenda) :=
  match a.buckets with
  | (date, c :: cs) :: rest =>
    if today < date then none
    else some ((date, c), ⟨if cs.isEmpty then rest else (date, cs) :: rest⟩)
  | _ => none

/-- How many continuations wait for a date. -/
def countOn (a : Agenda) (date : Date) : Nat :=
  match a.buckets.lookup date with
  | some cs => cs.length
  | none => 0

/-- The waiting continuations with their dates, in the order in which they come out. -/
def toList (a : Agenda) : List (Date × Continuation) :=
  a.buckets.flatMap fun b => b.2.map (b.1, ·)

def length (a : Agenda) : Nat :=
  a.buckets.foldr (fun bucket n => bucket.2.length + n) 0

def isEmpty (a : Agenda) : Bool :=
  a.buckets.isEmpty

end Agenda

end Storyline
