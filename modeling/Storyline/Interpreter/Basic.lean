import Storyline.Interpreter.Effects

/-!
# Interpreters

An interpreter plays one scenario at a time. It walks the graph from node to node until a node
suspends the session, the scenario ends, or the steps allowed at a time are used up. A suspended
session waits for the answer it wants; after the answer some time must pass before it goes on.

Every operation answers with the interpreter and the host after it, and with what happened.

* `Stage.start`, `Stage.startAt`: begin a session.
* `Stage.tick`: lets time pass.
* `Stage.choose`, `Stage.skipEnded`: answer a suspended session.
* `Stage.finish`: ends a session.
-/

namespace Storyline

/-- What is fixed for the life of an interpreter. -/
structure Settings where
  /-- Whether the calendar stays paused when a scenario ends. -/
  sandbox : Bool
  /-- The settling time after a resumption, in nanoseconds. -/
  resumeDelay : Nat
  /-- How many nodes may be visited at a time. -/
  maxSteps : Nat
  seed : Option UInt64
  deriving DecidableEq, Repr

structure Interpreter where
  settings : Settings
  phase : Phase
  session : Option Session
  /-- Whether the game is to end with the next scenario that ends. -/
  endRequested : Bool
  /-- What is to go on on a later date. -/
  agenda : Agenda
  notifier : Notifier
  generator : Generator

namespace Interpreter

/-- An idle interpreter. Without a seed its random numbers come from `entropy`. -/
def new (settings : Settings) (entropy : Generator) : Interpreter where
  settings := settings
  phase := .idle
  session := none
  endRequested := false
  agenda := .empty
  notifier := .empty
  generator :=
    match settings.seed with
    | some seed => .ofSeed seed
    | none => entropy

def isActive (i : Interpreter) : Bool :=
  i.session.isSome

def status (i : Interpreter) : Status where
  phase := i.phase
  scenario := i.session.map (·.graph.name)
  current := i.session.bind (·.current)
  category := i.session.map (·.category)
  pendingLate := i.agenda.length

/-- The node at which the session stands. -/
def currentNode? (i : Interpreter) : Option Node :=
  i.session.bind fun session => session.current.bind session.graph.node?

/-- Lets the next scenario that ends be the last. -/
def requestEnd (i : Interpreter) : Interpreter :=
  { i with endRequested := true }

end Interpreter

/-! ## Turns -/

/-- An interpreter with its host. -/
structure Stage (H : Type) where
  interpreter : Interpreter
  host : H

/-- The stage after something was done, and what happened meanwhile. -/
structure Turn (H : Type) where
  stage : Stage H
  events : List Event

variable {H : Type}

/-- Nothing happens. -/
def Turn.still (s : Stage H) : Turn H :=
  ⟨s, []⟩

/-- One thing after the other. -/
def Turn.andThen (t : Turn H) (f : Stage H → Turn H) : Turn H :=
  let u := f t.stage
  ⟨u.stage, t.events ++ u.events⟩

namespace Stage

def modify (s : Stage H) (f : Interpreter → Interpreter) : Stage H :=
  { s with interpreter := f s.interpreter }

def tell (s : Stage H) (notice : Notice) : Turn H :=
  ⟨s, [.notice notice]⟩

/-- Sends a notification to the subscribers. -/
def send (s : Stage H) (n : Notification) : Turn H :=
  ⟨s.modify fun i => { i with notifier := i.notifier.emit n }, [.sent n]⟩

def call [Host H] (s : Stage H) (c : Call) : Turn H :=
  ⟨{ s with host := Host.perform c s.host }, [.call c]⟩

/-- Lets the events of a node happen. -/
def playEvents [Host H] (s : Stage H) : List Event → Turn H
  | [] => .still s
  | .call c :: events => (s.call c).andThen fun s => s.playEvents events
  | .notice n :: events => (s.tell n).andThen fun s => s.playEvents events
  | .sent n :: events => (s.send n).andThen fun s => s.playEvents events

/-! ## Ending -/

/-- Ends the game if that was requested. -/
def endGame [Host H] (s : Stage H) : Turn H :=
  if s.interpreter.endRequested then
    (((s.modify fun i => { i with endRequested := false }).tell .gameOver).andThen
      (·.call .gameOver)).andThen (·.call .reset)
  else .still s

/-- Ends the scenario. Nothing happens if none is being played. -/
def finish [Host H] (s : Stage H) : Turn H :=
  match s.interpreter.session with
  | none => .still s
  | some session =>
    let s := s.modify fun i => { i with session := none, phase := .idle }
    ((((s.send (.finished session.category)).andThen (·.call .hide)).andThen
      fun s => if s.interpreter.settings.sandbox then .still s else s.call (.pause false)).andThen
      (·.tell (.scenarioFinished session.graph.name session.category))).andThen endGame

/-! ## Walking -/

/-- Lets the effects of a node happen in the given session. -/
def apply [Host H] (s : Stage H) (session : Session) (e : Effects) : Turn H :=
  let s := s.modify fun i =>
    { i with
      session := some { session with category := e.category }
      generator := e.generator
      agenda := e.scheduled.foldl (fun agenda (due, c) => agenda.schedule due c) i.agenda }
  s.playEvents e.events

def moveTo (s : Stage H) (next : Option NodeId) : Stage H :=
  s.modify fun i =>
    { i with session := i.session.map fun session => { session with current := next } }

/-- Visits nodes until the session is suspended, the scenario ends, or so many steps are done. -/
def walk [Host H] : Nat → Stage H → Turn H
  | 0, s => .still s
  | steps + 1, s =>
    match s.interpreter.phase, s.interpreter.session with
    | .running, some session =>
      match session.current with
      | none => s.finish
      | some id =>
        match session.graph.node? id with
        | none => (s.tell (.nodeUnresolved session.graph.name id)).andThen finish
        | some node =>
          let e := session.graph.effects node session.category (Host.today s.host)
            s.interpreter.generator
          (s.apply session e).andThen fun s =>
            match e.step with
            | .advance next => walk steps (s.moveTo next)
            | .suspend suspension =>
              .still (s.modify fun i => { i with phase := .paused suspension })
            | .finish => s.finish
    | _, _ => .still s

/-- Visits as many nodes as the settings allow at a time. -/
def proceed [Host H] (s : Stage H) : Turn H :=
  walk s.interpreter.settings.maxSteps s

/-! ## Beginning -/

def begin [Host H] (s : Stage H) (session : Session) : Turn H :=
  let s := s.modify fun i => { i with session := some session, phase := .running }
  ((s.send (.started session.category)).andThen (·.call (.pause true))).andThen proceed

/-- Starts a scenario from its start node, and says whether it began. While another one is being
played the request is dropped. -/
def start [Host H] (s : Stage H) (graph : Graph) : Bool × Turn H :=
  if s.interpreter.isActive then (false, .still s)
  else
    match graph.start? with
    | none => (false, s.tell (.scenarioUnusable (GraphFault.noStart graph.name).message))
    | some node =>
      let category :=
        match node.kind with
        | .start category => category
        | _ => defaultCategory
      (true, (s.tell (.scenarioStarted graph.name category)).andThen
        (·.begin (.at graph node.id category)))

/-- Starts a scenario at a continuation, and says whether it began. -/
def startAt [Host H] (s : Stage H) (c : Continuation) : Bool × Turn H :=
  if s.interpreter.isActive then (false, .still s)
  else
    match c.graph.node? c.node with
    | none => (false, s.tell (.lateNodeMissing c.graph.name c.node))
    | some _ =>
      (true, (s.tell (.lateStarted c.graph.name c.node)).andThen
        (·.begin (.at c.graph c.node c.category)))

/-! ## Time -/

/-- Lets time pass, in nanoseconds. A session that settles goes on once its settling time is
over. -/
def tick [Host H] (s : Stage H) (elapsed : Nat) : Turn H :=
  match s.interpreter.phase with
  | .running =>
    match s.interpreter.session with
    | none => s.proceed
    | some session =>
      match session.settle with
      | none => s.proceed
      | some left =>
        let settling (settle : Option Nat) : Stage H :=
          s.modify fun i => { i with session := some { session with settle := settle } }
        if elapsed < left then .still (settling (some (left - elapsed)))
        else (settling none).proceed
  | _ => .still s

/-! ## Answers -/

/-- Goes on from a node through an outlet, once the settling time is over. -/
def continueThrough (s : Stage H) (node : NodeId) (outlet : String) : Stage H :=
  s.modify fun i =>
    match i.session with
    | none => { i with phase := .idle }
    | some session =>
      { i with
        phase := .running
        session := some { session with
          current := (session.graph.next? node outlet).map Node.id
          settle := some i.settings.resumeDelay } }

/-- The player's choice. A message without choices takes any number. -/
def choose [Host H] (s : Stage H) (choice : Nat) : Turn H :=
  match s.interpreter.phase with
  | .paused (.choice node choices) =>
    if 0 < choices ∧ choices ≤ choice then s.tell (.choiceUnknown choice choices)
    else
      let outlet := if 0 < choices then choiceOutlet choice else usualOutlet
      (s.call .hide).andThen fun s => .still (s.continueThrough node outlet)
  | _ => s.tell (.choiceUnexpected choice)

/-- The calendar has finished its move. -/
def skipEnded (s : Stage H) : Turn H :=
  match s.interpreter.phase with
  | .paused (.timeAdvance node) => .still (s.continueThrough node usualOutlet)
  | _ => .still s

end Stage

end Storyline
