import Storyline.Interpreter.Basic
import Storyline.Proofs.Interpreter.Effects

/-!
# Passes of the walk

The walk of an interpreter repeats one pass: the session visits the node at which it stands, or ends
if it stands nowhere.

* `Stage.walk_succ`: a walk is a pass and the walk after it.
* `Stage.finish_interpreter`, `Stage.finish_heard`: what the end of a session leaves behind.
* `Stage.pass_visit`: a pass at a node is its effects and the step after them.
-/

namespace Storyline

variable {H : Type}

/-! ## Turns -/

namespace Turn

@[simp] theorem stage_still (s : Stage H) : (still s).stage = s := rfl

@[simp] theorem events_still (s : Stage H) : (still s).events = [] := rfl

@[simp] theorem stage_andThen (t : Turn H) (f : Stage H → Turn H) :
    (t.andThen f).stage = (f t.stage).stage := rfl

@[simp] theorem events_andThen (t : Turn H) (f : Stage H → Turn H) :
    (t.andThen f).events = t.events ++ (f t.stage).events := rfl

@[simp] theorem still_andThen (s : Stage H) (f : Stage H → Turn H) :
    (still s).andThen f = f s := by
  simp [andThen, still]

@[simp] theorem andThen_still (t : Turn H) : t.andThen still = t := by
  simp [andThen, still]

theorem andThen_assoc (t : Turn H) (f g : Stage H → Turn H) :
    (t.andThen f).andThen g = t.andThen fun s => (f s).andThen g := by
  simp [andThen]

theorem andThen_congr {t : Turn H} {f g : Stage H → Turn H} (h : f t.stage = g t.stage) :
    t.andThen f = t.andThen g := by
  simp [andThen, h]

end Turn

def Host.performAll [Host H] (h : H) (calls : List Call) : H :=
  calls.foldl (fun h c => Host.perform c h) h

namespace Stage

variable [Host H]

@[simp] theorem playEvents_events (s : Stage H) (es : List Event) :
    (s.playEvents es).events = es := by
  induction es generalizing s with
  | nil => rfl
  | cons e es ih => cases e <;> simp [playEvents, call, tell, send, ih]

theorem playEvents_stage {es : List Event} (quiet : ∀ n, .sent n ∉ es) (s : Stage H) :
    (s.playEvents es).stage =
      { s with host := Host.performAll s.host (es.filterMap Event.call?) } := by
  induction es generalizing s with
  | nil => rfl
  | cons e es ih =>
    have rest : ∀ n, .sent n ∉ es := fun n mem => quiet n (List.mem_cons_of_mem _ mem)
    cases e with
    | call c => simp [playEvents, call, ih rest, Host.performAll, Event.call?]
    | notice n => simp [playEvents, tell, ih rest, List.filterMap_cons, Event.call?]
    | sent n => exact absurd List.mem_cons_self (quiet n)

end Stage

/-! ## The beginning and the end -/

def sessionOpening (category : Category) : List Event :=
  [.sent (.started category), .call (.pause true)]

/-- What is heard when a session ends, which may be the last one of the game. -/
def sessionEnding (sandbox last : Bool) (category : Category) : List Event :=
  [.sent (.finished category), .call .hide] ++ (if sandbox then [] else [.call (.pause false)])
    ++ (if last then [.call .gameOver, .call .reset] else [])

namespace Stage

variable [Host H]

theorem endGame_interpreter (s : Stage H) :
    s.endGame.stage.interpreter = { s.interpreter with endRequested := false } := by
  unfold endGame
  split
  · rfl
  · rename_i h
    simp only [Turn.stage_still]
    rw [← (Bool.not_eq_true _).mp h]

theorem endGame_heard (s : Stage H) :
    heard s.endGame.events =
      if s.interpreter.endRequested then [.call .gameOver, .call .reset] else [] := by
  unfold endGame
  split <;> rfl

theorem finish_idle {s : Stage H} (h : s.interpreter.session = none) : s.finish = .still s := by
  unfold finish
  simp only [h]

theorem finish_interpreter {s : Stage H} {session : Session}
    (h : s.interpreter.session = some session) :
    s.finish.stage.interpreter =
      { s.interpreter with
        session := none
        phase := .idle
        endRequested := false
        notifier := s.interpreter.notifier.emit (.finished session.category) } := by
  unfold finish
  simp only [h, Turn.stage_andThen, endGame_interpreter]
  by_cases sandbox : s.interpreter.settings.sandbox
  · simp [tell, send, call, modify, sandbox]
  · simp [tell, send, call, modify, sandbox]

theorem finish_heard {s : Stage H} {session : Session}
    (h : s.interpreter.session = some session) :
    heard s.finish.events =
      sessionEnding s.interpreter.settings.sandbox s.interpreter.endRequested session.category := by
  unfold finish sessionEnding
  simp only [h, Turn.events_andThen, Turn.stage_andThen, heard_append, endGame_heard]
  by_cases sandbox : s.interpreter.settings.sandbox
  · simp [tell, send, call, modify, sandbox]
  · simp [tell, send, call, modify, sandbox]

end Stage

/-! ## Visits -/

def Interpreter.visited (i : Interpreter) (session : Session) (e : Effects) : Interpreter :=
  { i with
    session := some { session with category := e.category }
    generator := e.generator
    agenda := e.scheduled.foldl (fun agenda (due, c) => agenda.schedule due c) i.agenda }

namespace Stage

variable [Host H]

theorem apply_stage (s : Stage H) (session : Session) {e : Effects}
    (quiet : ∀ n, .sent n ∉ e.events) :
    (s.apply session e).stage =
      { interpreter := s.interpreter.visited session e
        host := Host.performAll s.host (e.events.filterMap Event.call?) } := by
  simp [apply, playEvents_stage quiet, modify, Interpreter.visited]

theorem apply_events (s : Stage H) (session : Session) (e : Effects) :
    (s.apply session e).events = e.events := by
  simp [apply]

/-- How a session goes on after the effects of a node. -/
def follow (step : Step) (s : Stage H) : Turn H :=
  match step with
  | .advance next => .still (s.moveTo next)
  | .suspend suspension => .still (s.modify fun i => { i with phase := .paused suspension })
  | .finish => s.finish

def pass (s : Stage H) : Turn H :=
  match s.interpreter.phase, s.interpreter.session with
  | .running, some session =>
    match session.current with
    | none => s.finish
    | some id =>
      match session.graph.node? id with
      | none => (s.tell (.nodeUnresolved session.graph.name id)).andThen finish
      | some node =>
        let e := session.graph.effects node session.category (Host.today s.host)
          s.interpreter.generator
        (s.apply session e).andThen (follow e.step)
  | _, _ => .still s

theorem pass_of_resting {s : Stage H} (resting : s.interpreter.phase ≠ .running) :
    s.pass = .still s := by
  unfold pass
  split
  · contradiction
  · rfl

theorem pass_runOut {s : Stage H} {session : Session} (running : s.interpreter.phase = .running)
    (h : s.interpreter.session = some session) (none : session.current = none) :
    s.pass = s.finish := by
  unfold pass
  simp only [running, h, none]

theorem pass_visit {s : Stage H} {session : Session} {node : Node}
    (running : s.interpreter.phase = .running) (h : s.interpreter.session = some session)
    (current : session.current = some node.id) (found : session.graph.node? node.id = some node) :
    let e := session.graph.effects node session.category (Host.today s.host)
      s.interpreter.generator
    s.pass = (s.apply session e).andThen (follow e.step) := by
  unfold pass
  simp only [running, h, current, found]

/-! ## The walk -/

theorem walk_of_resting {s : Stage H} (resting : s.interpreter.phase ≠ .running) (n : Nat) :
    s.walk n = .still s := by
  cases n with
  | zero => rfl
  | succ n =>
    unfold walk
    split
    · contradiction
    · rfl

theorem walk_of_idle {s : Stage H} (h : s.interpreter.session = none) (n : Nat) :
    s.walk n = .still s := by
  cases n with
  | zero => rfl
  | succ n =>
    unfold walk
    rw [h]
    split
    · contradiction
    · rfl

theorem finish_walk {s : Stage H} {session : Session} (h : s.interpreter.session = some session)
    (n : Nat) : s.finish.andThen (walk n) = s.finish := by
  have idle : s.finish.stage.interpreter.session = none := by
    simp [finish_interpreter h]
  rw [Turn.andThen_congr (walk_of_idle idle n), Turn.andThen_still]

theorem follow_walk (step : Step) {s : Stage H} {session : Session}
    (h : s.interpreter.session = some session) (n : Nat) :
    (s.follow step).andThen (walk n) =
      match step with
      | .advance next => (s.moveTo next).walk n
      | .suspend suspension => .still (s.modify fun i => { i with phase := .paused suspension })
      | .finish => s.finish := by
  cases step with
  | advance next => simp [follow]
  | suspend suspension =>
    simp only [follow, Turn.still_andThen]
    exact walk_of_resting (by simp [modify]) n
  | finish => exact finish_walk h n

theorem walk_succ (n : Nat) (s : Stage H) : s.walk (n + 1) = s.pass.andThen (walk n) := by
  unfold pass
  rw [walk]
  by_cases running : s.interpreter.phase = .running
  · cases h : s.interpreter.session with
    | none => simp [running, walk_of_idle h]
    | some session =>
      simp only [running]
      cases session.current with
      | none => exact (finish_walk h n).symm
      | some id =>
        cases found : session.graph.node? id with
        | none =>
          simp only [found, Turn.andThen_assoc]
          exact Turn.andThen_congr (finish_walk h n).symm
        | some node =>
          simp only [found, Turn.andThen_assoc]
          apply Turn.andThen_congr
          have quiet := session.graph.sent_notMem_effects
            ⟨node, session.category, Host.today s.host⟩ s.interpreter.generator
          exact (follow_walk _ (by rw [apply_stage s session quiet]; rfl) n).symm
  · simp [running, walk_of_resting running]

/-- Steps that are allowed together can be allowed one after the other. -/
theorem walk_add (m n : Nat) (s : Stage H) : s.walk (m + n) = (s.walk m).andThen (walk n) := by
  induction m generalizing s with
  | zero => simp [walk]
  | succ m ih =>
    rw [Nat.add_right_comm, walk_succ, walk_succ, Turn.andThen_assoc]
    exact Turn.andThen_congr (ih _)

end Stage

end Storyline
