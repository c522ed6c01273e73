import Storyline.Proofs.Director.Energy
import Storyline.Proofs.Game.LateStarts
import Storyline.Proofs.Game.Reach

/-!
# Playing until nothing is being played

While a session is active the game goes on with it, through its ticks, answers and time skips, and
with the late events that start as soon as it has ended.

* `Game.playUntilIdle`: this part of the game.
* `Game.descends_of_step`: a move takes energy, or at least some of the settling time or the input.
* `Game.playUntilIdle_returns`: if all graphs are acyclic, it comes to an end.
-/

namespace Storyline.Game

/-- Whether a session is active and goes on. -/
def playing (g : Game) : Bool :=
  g.stage.interpreter.isActive && g.stage.interpreter.phase != .idle

/-- Moves until no session goes on, if it comes to that within so many rounds. -/
def playUntilIdle : Nat → Game → Option (Except End Game)
  | 0, _ => none
  | rounds + 1, g =>
    if g.playing then
      match g.step with
      | .ok m => playUntilIdle rounds m.game
      | .error why => some (.error why)
    else some (.ok g)

theorem playUntilIdle_of_playing {g : Game} {m : Move} (playing : g.playing = true)
    (step : g.step = .ok m) (rounds : Nat) :
    playUntilIdle (rounds + 1) g = playUntilIdle rounds m.game := by
  simp only [playUntilIdle, playing, step, if_true]

theorem playing_iff {g : Game} (coherent : g.stage.interpreter.Coherent) :
    g.playing = true ↔ g.stage.interpreter.isActive = true := by
  unfold playing
  rcases coherent with idle | ⟨graph, p, plays⟩
  · simp [Interpreter.isActive, idle.2]
  · have active := plays.isActive
    cases plays with
    | running phase => simp [active, phase]
    | paused phase => simp [active, phase]

/-- What comes back, seen from where it began: a game in which nothing is being played, and which
goes on from there, or a line of the input that is no text. -/
def Returns (g : Game) : Except End Game → Prop
  | .ok g' => g'.stage.interpreter.isActive = false ∧ ∃ k, ∀ moves, run (k + moves) g = run moves g'
  | .error why => why = .inputUnread ∧ none ∈ g.input

theorem Returns.of_step {g : Game} {m : Move} {result : Except End Game} (step : g.step = .ok m)
    (input : ∀ line ∈ m.game.input, line ∈ g.input) (h : m.game.Returns result) :
    g.Returns result := by
  cases result with
  | error why => exact ⟨h.1, input _ h.2⟩
  | ok g' =>
    obtain ⟨inactive, k, rest⟩ := h
    refine ⟨inactive, k + 1, ?_⟩
    intro moves
    rw [Nat.add_right_comm, run, step]
    exact rest moves

/-! ## What a move takes -/

def energy (g : Game) : Nat :=
  g.stage.interpreter.energy

/-- What can still pass without anything happening: the settling time, and lines of input. -/
def leeway (g : Game) : Nat :=
  (g.stage.interpreter.session.bind Session.settle).getD 0 + g.input.length

/-- One game is closer to its end than another. -/
def Descends (g' g : Game) : Prop :=
  g'.energy < g.energy ∨ g'.energy = g.energy ∧ g'.leeway < g.leeway

theorem answer_ok {g : Game} {m : Move} (h : g.answer = .ok m) :
    g.input = [] ∧ m = g.after (g.stage.choose 0) ∨
      ∃ line rest, g.input = some line :: rest ∧
        m = { g with input := rest }.after (g.stage.choose (choiceOf line)) := by
  unfold answer at h
  split at h
  · rename_i input
    have first : choiceOf "" = 0 := by decide
    rw [first] at h
    exact .inl ⟨input, (Except.ok.inj h).symm⟩
  · contradiction
  · rename_i line rest input
    exact .inr ⟨line, rest, input, (Except.ok.inj h).symm⟩

theorem answer_error {g : Game} {why : End} (h : g.answer = .error why) :
    why = .inputUnread ∧ none ∈ g.input := by
  unfold answer at h
  split at h
  · contradiction
  · rename_i rest input
    rw [input]
    exact ⟨(Except.error.inj h).symm, List.mem_cons_self⟩
  · contradiction

variable {g : Game} {m : Move} {graph : Graph}

theorem descends_of_tick (ready : g.stage.Ready Graph.Acyclic) {category : Category}
    {next : Option NodeId} (plays : g.stage.interpreter.Plays graph (.before category next))
    {elapsed : Nat} (passes : 0 < elapsed) :
    (g.after (Director.tick elapsed g.stage)).game.Descends g := by
  have inPlay := ready.inPlay
  cases settled : g.stage.settled? elapsed with
  | some t =>
    have ticked : (g.stage.tick elapsed).stage.Ready Graph.Acyclic :=
      Stage.act_ready ready (a := .serve (.tick elapsed)) ⟨fun _ => rfl, by simp⟩ nofun
    have less := Stage.tick_energy plays inPlay ready.steps settled
    exact .inl (Nat.lt_of_le_of_lt (Stage.startDue_energy ticked.tidy ticked.inPlay) less)
  | none =>
    obtain ⟨left, session, early, still⟩ := Stage.settling_of_unsettled plays settled
    let settling : Stage Console := g.stage.modify fun i =>
      { i with session := some ⟨graph, next, category, some (left - elapsed)⟩ }
    have after : settling.interpreter.Plays graph (.before category next) := by
      cases plays with
      | running phase session' holds => exact .running phase rfl holds
    have looked : Director.startDue settling = .still settling := by
      unfold Director.startDue
      rw [if_pos after.isActive]
    have move : Director.tick elapsed g.stage = .still settling := by
      rw [Director.tick, still, Turn.still_andThen]
      exact looked
    rw [move]
    refine .inr ⟨after.energy.trans plays.energy.symm, ?_⟩
    have shorter : left - elapsed < left := Nat.sub_lt (Nat.zero_lt_of_lt early) passes
    simp only [leeway, session]
    exact Nat.add_lt_add_right shorter _

theorem descends_of_answer (ready : g.stage.Ready Graph.Acyclic) {category : Category} {id : NodeId}
    {choices : Nat}
    (plays : g.stage.interpreter.Plays graph (.awaiting category (.choice id choices)))
    (answer : g.answer = .ok m) :
    m.game.Descends g ∧ ∀ line ∈ m.game.input, line ∈ g.input := by
  have acyclic := ready.inPlay.of_plays plays
  rcases answer_ok answer with ⟨-, rfl⟩ | ⟨line, rest, input, rfl⟩
  · -- Once the input is used up, every answer is the first choice, and there is one.
    have known : ¬ (0 < choices ∧ choices ≤ 0) := by omega
    exact ⟨.inl (Stage.choose_energy plays acyclic known), fun _ mem => mem⟩
  · refine ⟨?_, fun line mem => input ▸ List.mem_cons_of_mem _ mem⟩
    by_cases known : 0 < choices ∧ choices ≤ choiceOf line
    · have phase : g.stage.interpreter.phase = .paused (.choice id choices) := by
        cases plays
        assumption
      have same : (g.stage.choose (choiceOf line)).stage = g.stage := by
        simp only [Stage.choose, phase, if_pos known]
        rfl
      refine .inr ⟨congrArg (fun s : Stage Console => s.interpreter.energy) same, ?_⟩
      show ((g.stage.choose (choiceOf line)).stage.interpreter.session.bind _).getD 0 +
        rest.length < _
      rw [same, leeway, input, List.length_cons]
      omega
    · exact .inl (Stage.choose_energy plays acyclic known)

theorem descends_of_arrival (ready : g.stage.Ready Graph.Acyclic) {category : Category}
    {id : NodeId} (plays : g.stage.interpreter.Plays graph (.awaiting category (.timeAdvance id))) :
    g.resume.game.Descends g := by
  rw [resume_eq_skipEnded ready.arriving (Stage.phase_of_arrival plays)]
  exact .inl (Stage.skipEnded_energy (s := ⟨g.stage.interpreter, g.console.takeArrival.2⟩) plays
    (ready.inPlay.of_plays plays))

/-- What a move does while a session is active. -/
inductive Plays (g : Game) (graph : Graph) : Prop where
  | ticks {category : Category} {next : Option NodeId}
      (plays : g.stage.interpreter.Plays graph (.before category next))
      (step : g.step = .ok (g.after (Director.tick frame g.stage)))
  | answers {category : Category} {id : NodeId} {choices : Nat}
      (plays : g.stage.interpreter.Plays graph (.awaiting category (.choice id choices)))
      (step : g.step = g.answer)
  | arrives {category : Category} {id : NodeId}
      (plays : g.stage.interpreter.Plays graph (.awaiting category (.timeAdvance id)))
      (step : g.step = .ok g.resume)

theorem plays_of_active (coherent : g.stage.interpreter.Coherent)
    (inside : g.console.offCalendar = false) (active : g.stage.interpreter.isActive = true) :
    ∃ graph, g.Plays graph := by
  rcases coherent with idle | ⟨graph, p, plays⟩
  · simp [Interpreter.isActive, idle.2] at active
  · refine ⟨graph, ?_⟩
    cases id plays with
    | running phase => exact .ticks plays (by simp [Game.step, inside, active, phase])
    | @paused category suspension phase =>
      cases suspension with
      | choice id choices => exact .answers plays (by simp [Game.step, inside, active, phase])
      | timeAdvance id => exact .arrives plays (by simp [Game.step, inside, active, phase])

theorem descends_of_step (ready : g.stage.Ready Graph.Acyclic)
    (active : g.stage.interpreter.isActive = true) (step : g.step = .ok m) :
    m.game.Descends g ∧ ∀ line ∈ m.game.input, line ∈ g.input := by
  obtain ⟨graph, played⟩ := plays_of_active ready.tidy.coherent ready.inside active
  cases played with
  | ticks plays move =>
    obtain rfl := Except.ok.inj (step.symm.trans move)
    exact ⟨descends_of_tick ready plays (by decide), fun _ mem => mem⟩
  | answers plays move => exact descends_of_answer ready plays (move.symm.trans step)
  | arrives plays move =>
    obtain rfl := Except.ok.inj (step.symm.trans move)
    exact ⟨descends_of_arrival ready plays, fun _ mem => mem⟩

theorem unread_of_step {why : End} (ready : g.stage.Ready Graph.Acyclic)
    (active : g.stage.interpreter.isActive = true) (step : g.step = .error why) :
    why = .inputUnread ∧ none ∈ g.input := by
  obtain ⟨graph, played⟩ := plays_of_active ready.tidy.coherent ready.inside active
  cases played with
  | ticks plays move =>
    rw [move] at step
    contradiction
  | answers plays move => exact answer_error (move.symm.trans step)
  | arrives plays move =>
    rw [move] at step
    contradiction

/-! ## All rounds -/

-- The recursion is on energy and leeway, as `descends_of_step` compares them: a late event that
-- starts brings a new session, but never new energy.
theorem exists_return {g : Game} (owns : g.director.Owns Graph.Acyclic)
    (ready : g.stage.Ready Graph.Acyclic) :
    ∃ rounds result, (∀ n, rounds ≤ n → playUntilIdle n g = some result) ∧ g.Returns result := by
  by_cases active : g.stage.interpreter.isActive = true
  · have playing := (playing_iff ready.tidy.coherent).2 active
    cases step : g.step with
    | error why =>
      refine ⟨1, .error why, ?_, unread_of_step ready active step⟩
      intro n some
      obtain ⟨n, rfl⟩ := Nat.exists_eq_add_of_le' some
      simp only [playUntilIdle, playing, step, if_true]
    | ok m =>
      obtain ⟨descends, input⟩ := descends_of_step ready active step
      have steps := step_cases ready.tidy.coherent step
      obtain ⟨-, -, -, -, same, -⟩ := steps.chronicle
      obtain ⟨rounds, result, all, returns⟩ :=
        exists_return (same ▸ owns) (steps.ready owns ready)
      refine ⟨rounds + 1, result, ?_, returns.of_step step input⟩
      intro n enough
      obtain ⟨n, rfl⟩ := Nat.exists_eq_add_of_le' (Nat.one_le_of_lt enough)
      rw [playUntilIdle_of_playing playing step]
      exact all n (Nat.le_of_succ_le_succ enough)
  · have inactive : g.stage.interpreter.isActive = false := by simpa using active
    refine ⟨1, .ok g, ?_, inactive, 0, fun moves => by rw [Nat.zero_add]⟩
    intro n some
    obtain ⟨n, rfl⟩ := Nat.exists_eq_add_of_le' some
    have resting : g.playing = false := by simp [Game.playing, inactive]
    simp only [playUntilIdle, resting, Bool.false_eq_true, if_false]
termination_by (g.energy, g.leeway)
decreasing_by
  rcases descends with less | ⟨same, less⟩
  · exact .left _ _ less
  · rw [same]
    exact .right _ less

/-- If all graphs of the library are acyclic, playing comes to an end from wherever the director and
its console have come, whatever the settings and whatever is answered: then nothing is being played,
unless a line of the input is no text. -/
theorem playUntilIdle_returns {d : Director} (acyclic : d.Owns Graph.Acyclic) {s : Stage Console}
    (reached : d.Reaches s) (input : List (Option String)) (days limit : Nat) :
    let g : Game := ⟨d, s, input, days, limit⟩
    ∃ rounds result, (∀ n, rounds ≤ n → playUntilIdle n g = some result) ∧ g.Returns result := by
  intro g
  have ready : g.stage.Ready Graph.Acyclic := reached.ready acyclic
  exact exists_return (g := g) acyclic ready

theorem errand_acyclic (unit : Period) : (errand unit).Acyclic := by
  let order := ["end", "letter", "trip", "ask", "plan", "start"]
  exact Graph.acyclic_iff.2 ⟨(order.idxOf ·), by cases unit <;> decide⟩

/-- A letter is asked for, and the first line of the input is no number. -/
theorem playUntilIdle_returns_errand :
    let d := (Director.new { Config.default with seed := some 1 } [errand .month]).1
    let fresh : Stage Console := ⟨d.interpreter (.ofSeed 1), .new lastOfJanuary .initial⟩
    let s := (d.handle fresh (.start "salary")).stage
    let g : Game := ⟨d, s, [some "home", none], 0, 0⟩
    (d.Owns Graph.Acyclic ∧ d.Reaches s ∧ s.interpreter.isActive = true) ∧
      ∃ rounds result, (∀ n, rounds ≤ n → playUntilIdle n g = some result) ∧ g.Returns result := by
  intro d fresh s g
  have acyclic : ∀ g ∈ [errand .month], g.Acyclic :=
    List.forall_mem_singleton.2 (errand_acyclic .month)
  have owns : d.Owns Graph.Acyclic := Director.new_owns acyclic
  have reached : d.Reaches s := .handles (.fresh (.ofSeed 1) rfl) (.start "salary")
  exact ⟨⟨owns, reached, by decide +kernel⟩, playUntilIdle_returns owns reached _ 0 0⟩

end Storyline.Game
