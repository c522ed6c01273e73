import Storyline.Game
import Storyline.Proofs.Console.Clock
import Storyline.Proofs.Director.Basic
import Storyline.Proofs.Interpreter.Ending
import Storyline.Proofs.Player

/-!
# Moves of a game

* `Game.Steps`: what a move can be.
* `Game.Runs`: the moves of a game up to some point.
* `Game.run_eq_some`: a game that ends makes such moves up to its end.
-/

namespace Storyline

namespace Game

inductive Steps (g : Game) (m : Move) : Prop where
  | ticks (phase : g.stage.interpreter.phase = .running)
      (move : m = g.after (Director.tick frame g.stage))
  | answers {id : NodeId} {choices choice : Nat} {rest : List (Option String)}
      (phase : g.stage.interpreter.phase = .paused (.choice id choices))
      (move : m = { g with input := rest }.after (g.stage.choose choice))
  | arrives {id : NodeId} (phase : g.stage.interpreter.phase = .paused (.timeAdvance id))
      (move : m = g.resume)
  | announces {day : NewDay} {console : Console} (idle : g.stage.interpreter.Idle)
      (alive : g.console.gameOver = false) (pending : g.console.nextPending? = some (day, console))
      (move : m = { g with days := g.days + 1 }.after
        (g.director.announce day ⟨g.stage.interpreter, console⟩))
  | waits {console : Console} (idle : g.stage.interpreter.Idle)
      (alive : g.console.gameOver = false) (pending : g.console.nextPending? = none)
      (tomorrow : g.console.tomorrow? = some console)
      (move : m = g.after (.still ⟨g.stage.interpreter, console⟩))

theorem idleStep_cases {g : Game} {m : Move} (idle : g.stage.interpreter.Idle)
    (h : g.idleStep = .ok m) : g.Steps m := by
  unfold idleStep at h
  split at h
  · contradiction
  · rename_i playing
    have alive : g.console.gameOver = false := by
      simp only [Bool.or_eq_true, not_or, Bool.not_eq_true] at playing
      exact playing.1
    split at h
    · rename_i day console pending
      exact .announces idle alive pending (Except.ok.inj h).symm
    · rename_i pending
      split at h
      · contradiction
      · split at h
        · rename_i console tomorrow
          exact .waits idle alive pending tomorrow (Except.ok.inj h).symm
        · contradiction

theorem answer_cases {g : Game} {m : Move} (h : g.answer = .ok m) :
    ∃ choice rest, m = { g with input := rest }.after (g.stage.choose choice) := by
  unfold answer at h
  split at h
  · rename_i none
    refine ⟨_, g.input, (Except.ok.inj h).symm⟩
  · contradiction
  · exact ⟨_, _, (Except.ok.inj h).symm⟩

theorem step_cases {g : Game} {m : Move} (coherent : g.stage.interpreter.Coherent)
    (h : g.step = .ok m) : g.Steps m := by
  unfold step at h
  split at h
  · contradiction
  · split at h
    · split at h
      · rename_i phase
        exact .ticks phase (Except.ok.inj h).symm
      · rename_i phase
        obtain ⟨choice, rest, move⟩ := answer_cases h
        exact .answers phase move
      · rename_i phase
        exact .arrives phase (Except.ok.inj h).symm
      · rename_i phase
        exact idleStep_cases (coherent.idle_of_phase phase) h
    · rename_i inactive
      exact idleStep_cases (coherent.idle_of_inactive (by simpa using inactive)) h

theorem resume_eq (g : Game) :
    g.resume = g.after
      (if g.console.advancing then
        Stage.skipEnded ⟨g.stage.interpreter, g.console.takeArrival.2⟩
      else .still ⟨g.stage.interpreter, g.console.takeArrival.2⟩) := rfl

/-- A move changes the console by calls, but for its own days and time skips. -/
theorem Steps.calls {g : Game} {m : Move} (h : g.Steps m) :
    ∃ c : Console, c.player = g.console.player ∧ c.gameOver = g.console.gameOver ∧
      c.printed = g.console.printed ∧
      m.game.console = Host.performAll c (m.events.filterMap Event.call?) := by
  cases h with
  | ticks phase move =>
    subst move
    exact ⟨g.console, rfl, rfl, rfl, Director.faithful_tick frame g.stage⟩
  | answers phase move =>
    subst move
    exact ⟨g.console, rfl, rfl, rfl, g.stage.faithful_choose _⟩
  | arrives phase move =>
    subst move
    refine ⟨g.console.takeArrival.2, rfl, rfl, rfl, ?_⟩
    rw [resume_eq]
    split
    · exact Stage.faithful_skipEnded ⟨g.stage.interpreter, g.console.takeArrival.2⟩
    · rfl
  | @announces day console idle alive pending move =>
    subst move
    obtain ⟨-, -, rfl⟩ := Console.nextPending?_eq_some pending
    refine ⟨{ g.console with announced := day.date }, rfl, rfl, rfl, ?_⟩
    exact g.director.faithful_announce day ⟨g.stage.interpreter, _⟩
  | @waits console idle alive pending tomorrow move =>
    subst move
    obtain ⟨date, -, rfl⟩ := Option.map_eq_some_iff.1 tomorrow
    exact ⟨{ g.console with today := date }, rfl, rfl, rfl, rfl⟩

/-- The moves of a game up to some point, each with the game before it. -/
inductive Runs : Game → List (Game × Move) → Game → Prop where
  | nil {g : Game} : Runs g [] g
  | cons {g g' : Game} {m : Move} {moves : List (Game × Move)} (step : g.step = .ok m)
      (rest : Runs m.game moves g') : Runs g ((g, m) :: moves) g'

def happened (moves : List (Game × Move)) : List Event :=
  moves.flatMap fun x => x.2.events

/-- So many moves of a game, unless it ends before them, and the game after them. -/
def played : Nat → Game → List (Game × Move) × Game
  | 0, g => ([], g)
  | n + 1, g =>
    match g.step with
    | .ok m => ((g, m) :: (played n m.game).1, (played n m.game).2)
    | .error _ => ([], g)

theorem runs_played (n : Nat) (g : Game) : g.Runs (played n g).1 (played n g).2 := by
  induction n generalizing g with
  | zero => exact .nil
  | succ n ih =>
    unfold played
    split
    · rename_i m step
      exact .cons step (ih m.game)
    · exact .nil

theorem Runs.trans {g g' g'' : Game} {moves moves' : List (Game × Move)} (run : g.Runs moves g')
    (run' : g'.Runs moves' g'') : g.Runs (moves ++ moves') g'' := by
  induction run with
  | nil => exact run'
  | cons step rest ih => exact .cons step (ih run')

theorem runs_succ {n : Nat} {g : Game} (h : (played n g).2.step.isOk = true) :
    ∃ m, g.Runs ((played n g).1 ++ [((played n g).2, m)]) m.game := by
  cases step : (played n g).2.step with
  | error why =>
    rw [step] at h
    contradiction
  | ok m => exact ⟨m, (runs_played n g).trans (.cons step .nil)⟩

/-- A game that has ended has made the moves up to its end, where no move is possible. -/
theorem run_eq_some {n : Nat} {g g' : Game} {why : End} (h : run n g = some (why, g')) :
    (played n g).2 = g' ∧ g'.step = .error why := by
  induction n generalizing g with
  | zero => contradiction
  | succ n ih =>
    unfold run at h
    unfold played
    cases step : g.step with
    | ok m =>
      rw [step] at h
      exact ih h
    | error why =>
      rw [step] at h
      obtain ⟨rfl, rfl⟩ := Prod.mk.inj (Option.some.inj h)
      exact ⟨rfl, step⟩

end Game

end Storyline
