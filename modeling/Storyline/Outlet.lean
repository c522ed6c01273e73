import Storyline.Node
import Storyline.Text.Numeral

/-!
# Outlets

A link leaves its node through an outlet, which has a name. An outlet that belongs to a list of
choices, outcomes or delays is named for the list and a position in it.

* `Kind.hasOutlet`: the names that a kind accepts.
* `Kind.outlets`: the names under which a walk looks an outlet up.
-/

namespace Storyline

def startOutlet : String := "start"

/-- The outlet through which most kinds go on. -/
def usualOutlet : String := "output"

def listOutlet (list : String) (i : Nat) : String :=
  list ++ " " ++ toString i

def choiceOutlet (i : Nat) : String := listOutlet "choices" i

def outcomeOutlet (i : Nat) : String := listOutlet "outcomes" i

def delayOutlet (i : Nat) : String := listOutlet "infos" i

/-- What follows the given beginning of a text. -/
def afterPrefix? : List Char → List Char → Option (List Char)
  | [], cs => some cs
  | p :: ps, c :: cs => if p = c then afterPrefix? ps cs else none
  | _ :: _, [] => none

/-- Whether a name is that of the list, a space, and a position below `length`. The position may
have a plus sign and leading zeros. -/
def isListOutlet (list : String) (length : Nat) (name : String) : Bool :=
  match afterPrefix? (list ++ " ").toList name.toList with
  | some rest =>
    match Text.natural? rest with
    | some i => i < length
    | none => false
  | none => false

namespace Kind

/-- Whether a kind accepts a link from the outlet of the given name. -/
def hasOutlet (kind : Kind) (name : String) : Bool :=
  match kind with
  | .start _ => name == startOutlet
  | .message _ _ choices _ => name == usualOutlet || isListOutlet "choices" choices.length name
  | .prompt _ choices => name == usualOutlet || isListOutlet "choices" choices.length name
  | .random outcomes => isListOutlet "outcomes" outcomes.length name
  | .weightedRandom outcomes => isListOutlet "outcomes" outcomes.length name
  | .late delays => name == usualOutlet || isListOutlet "infos" delays.length name
  | .timeSkip .. => name == usualOutlet
  | .result _ => name == usualOutlet
  | .shop _ => name == usualOutlet
  | .final => false

/-- The names under which a walk looks up the outlets of a kind. -/
def outlets : Kind → List String
  | .start _ => [startOutlet]
  | .message _ _ choices _ => usualOutlet :: (List.range choices.length).map choiceOutlet
  | .prompt _ choices => usualOutlet :: (List.range choices.length).map choiceOutlet
  | .random outcomes => (List.range outcomes.length).map outcomeOutlet
  | .weightedRandom outcomes => (List.range outcomes.length).map outcomeOutlet
  | .late delays => usualOutlet :: (List.range delays.length).map delayOutlet
  | .timeSkip .. => [usualOutlet]
  | .result _ => [usualOutlet]
  | .shop _ => [usualOutlet]
  | .final => []

end Kind

end Storyline
