import Storyline.Proofs.Game.Aftermath

/-!
# Games after their end

* `Game.Quiet`: nothing is left to do when control comes back from the end of the game.
* `Game.final_iff_quiet`: exactly then the end of the game is final, and what it printed stays true.
-/

namespace Storyline

/-! ## Moves -/

namespace Game

/-- If the coming move ends the game, nothing is left to do when control comes back from there. -/
structure Quiet (g : Game) : Prop where
  tick : g.stage.interpreter.phase = .running → (g.stage.tick frame).Rests []
  day : ∀ day console, g.stage.interpreter.phase = .idle →
    g.console.nextPending? = some (day, console) →
    (g.director.boundaries day ⟨g.stage.interpreter, console⟩).Rests [.deductDaily]

theorem quiet_of_running {g : Game} (phase : g.stage.interpreter.phase = .running) :
    g.Quiet ↔ (g.stage.tick frame).Rests [] := by
  refine ⟨fun h => h.tick phase, fun h => ⟨fun _ => h, ?_⟩⟩
  intro day console idle
  rw [phase] at idle
  contradiction

theorem quiet_of_pending {g : Game} (idle : g.stage.interpreter.Idle) {day : NewDay}
    {console : Console} (pending : g.console.nextPending? = some (day, console)) :
    g.Quiet ↔
      (g.director.boundaries day ⟨g.stage.interpreter, console⟩).Rests [.deductDaily] := by
  refine ⟨fun h => h.day day console idle.1 pending, fun h => ⟨?_, ?_⟩⟩
  · intro phase
    rw [idle.1] at phase
    contradiction
  · intro day' console' _ pending'
    obtain ⟨rfl, rfl⟩ := Prod.mk.inj (Option.some.inj (pending.symm.trans pending'))
    exact h

theorem tick_eq (s : Stage Console) : Director.tick frame s = (s.tick frame).back [] := by
  have nothing (s : Stage Console) : s.callAll [] = .still s := rfl
  simp only [Turn.back, nothing]
  exact congrArg (Turn.andThen · Director.startDue) (Turn.andThen_still _).symm

theorem announce_eq_back (d : Director) (day : NewDay) (s : Stage Console) :
    d.announce day s = (d.boundaries day s).back [.deductDaily] := by
  rw [Turn.back, Turn.andThen_assoc]
  rfl

theorem choose_silent (s : Stage Console) (choice : Nat) :
    .call .gameOver ∉ heard (s.choose choice).events := by
  unfold Stage.choose
  split
  · split <;> simp [Stage.tell, Stage.call]
  · simp [Stage.tell]

theorem resume_silent (g : Game) : .call .gameOver ∉ heard g.resume.events := by
  rw [resume_eq]
  unfold after Stage.skipEnded
  split
  · split <;> simp
  · simp

theorem Steps.fit {g : Game} {m : Move} (h : g.Steps m) (fit : g.stage.Fit) :
    m.game.stage.Fit := by
  cases h with
  | ticks phase move =>
    subst move
    have ticked : (g.stage.tick frame).stage.Fit := Stage.serve_fit (r := .tick frame) fit trivial
    exact Stage.startDue_fit ticked
  | @answers id choices choice rest phase move =>
    subst move
    exact Stage.serve_fit (r := .choose choice) fit trivial
  | arrives phase move =>
    subst move
    have taken : Stage.Fit ⟨g.stage.interpreter, g.console.takeArrival.2⟩ :=
      ⟨fit.coherent, fit.resolved, fit.unasked⟩
    rw [resume_eq]
    unfold after
    dsimp only
    split
    · exact Stage.serve_fit (r := .skipEnded) taken trivial
    · exact taken
  | @announces day console idle alive pending move =>
    subst move
    obtain ⟨-, -, rfl⟩ := Console.nextPending?_eq_some pending
    have opened : (Stage.mk g.stage.interpreter
        { g.console with announced := day.date }).Fit :=
      ⟨fit.coherent, fit.resolved, fit.unasked⟩
    have bounded := g.director.boundaries_fit day opened alive
    rw [announce_eq_back]
    exact Stage.startDue_fit (Stage.callAll_fit bounded (by simp))
  | @waits console idle alive pending tomorrow move =>
    subst move
    obtain ⟨date, -, rfl⟩ := Option.map_eq_some_iff.1 tomorrow
    exact ⟨fit.coherent, fit.resolved, fit.unasked⟩

/-- A move that ends the game is harmless from there on exactly if it is quiet, and after a quiet
one nothing is being played. -/
theorem Steps.over {g : Game} {m : Move} (h : g.Steps m) (fit : g.stage.Fit)
    (mem : .call .gameOver ∈ heard m.events) :
    ∃ before after, heard m.events = before ++ .call .gameOver :: after ∧
      .call .gameOver ∉ before ∧ .call .gameOver ∉ after ∧
      ((g.console.player.after before).Harmless after ↔ g.Quiet) ∧
      (g.Quiet → m.game.stage.interpreter.Idle) := by
  cases h with
  | ticks phase move =>
    subst move
    have ticked : (g.stage.tick frame).stage.Fit := Stage.serve_fit (r := .tick frame) fit trivial
    have ends := Stage.serve_ends fit.coherent (r := .tick frame) rfl
    have player := (g.stage.faithful_tick frame).player
    rw [quiet_of_running phase]
    have same : g.after (Director.tick frame g.stage) = g.after ((g.stage.tick frame).back []) := by
      rw [tick_eq]
    rw [same] at mem ⊢
    exact Turn.back_over ticked (fun now => (ends.over_of_mem now).2) (by simp) rfl player mem
  | answers phase move =>
    subst move
    exact absurd mem (choose_silent _ _)
  | arrives phase move =>
    subst move
    exact absurd mem (resume_silent g)
  | @announces day console idle alive pending move =>
    subst move
    have quiet := quiet_of_pending idle pending
    obtain ⟨-, -, rfl⟩ := Console.nextPending?_eq_some pending
    have opened : (Stage.mk g.stage.interpreter
        { g.console with announced := day.date }).Fit :=
      ⟨fit.coherent, fit.resolved, fit.unasked⟩
    have player := (g.director.faithful_boundaries day
      ⟨g.stage.interpreter, { g.console with announced := day.date }⟩).player
    rw [quiet]
    unfold after at mem ⊢
    rw [announce_eq_back] at mem ⊢
    exact Turn.back_over (g.director.boundaries_fit day opened alive)
      (g.director.boundaries_over day opened alive) (by simp) rfl player mem
  | waits idle alive pending tomorrow move =>
    subst move
    simp [after] at mem

theorem step_over {g : Game} (idle : g.stage.interpreter.Idle) (ended : g.console.gameOver = true)
    (m : Move) : g.step ≠ .ok m := by
  have inactive : g.stage.interpreter.isActive = false := by simp [Interpreter.isActive, idle.2]
  unfold step
  split <;> simp [inactive, idleStep, ended]

/-! ## Runs -/

theorem Steps.player {g : Game} {m : Move} (h : g.Steps m) :
    m.game.console.player = g.console.player.after m.events := by
  obtain ⟨c, player, -, -, calls⟩ := h.calls
  rw [calls, Console.performAll_player, player, Player.after_eq_foldl]

theorem Steps.gameOver {g : Game} {m : Move} (h : g.Steps m)
    (mem : .call .gameOver ∈ m.events) : m.game.console.gameOver = true := by
  obtain ⟨c, -, -, -, calls⟩ := h.calls
  rw [calls, Console.performAll_gameOver, decide_eq_true (mem_calls.2 mem), Bool.or_true]

theorem Runs.final_iff {g g' : Game} {moves : List (Game × Move)} (run : g.Runs moves g')
    (fit : g.stage.Fit) :
    g.console.player.Final (heard (happened moves)) ↔
      ∀ x ∈ moves, .call .gameOver ∈ x.2.events → x.1.Quiet := by
  induction run with
  | nil =>
    refine ⟨fun _ x mem => by simp at mem, fun _ before after split => ?_⟩
    simp [happened] at split
  | @cons g g' m moves step rest ih =>
    have steps := step_cases fit.coherent step
    have later := ih (steps.fit fit)
    have events : heard (happened ((g, m) :: moves)) =
        heard m.events ++ heard (happened moves) := by
      simp [happened]
    rw [events, List.forall_mem_cons]
    by_cases ended : .call .gameOver ∈ heard m.events
    · -- This move ends the game. After a quiet one nothing is being played, so no move follows.
      obtain ⟨before, after, split, first, last, harmless, idle⟩ := steps.over fit ended
      rw [Stage.gameOver_mem_heard] at ended
      have stops (quiet : g.Quiet) : moves = [] := by
        cases rest with
        | nil => rfl
        | cons step' => exact absurd step' (step_over (idle quiet) (steps.gameOver ended) _)
      have quiet_iff : g.console.player.Final (heard m.events ++ heard (happened moves)) ↔
          g.Quiet := by
        constructor
        · intro final
          have longer : (g.console.player.after before).Harmless
              (after ++ heard (happened moves)) := final before _ (by simp [split])
          exact harmless.1 longer.initial
        · intro quiet
          rw [stops quiet]
          simpa [happened, split] using (Player.final_split first last).2 (harmless.2 quiet)
      rw [quiet_iff]
      constructor
      · intro quiet
        refine ⟨fun _ => quiet, ?_⟩
        rw [stops quiet]
        simp
      · exact fun h => h.1 ended
    · rw [Player.final_append ended, Player.after_heard, ← steps.player, later]
      rw [Stage.gameOver_mem_heard] at ended
      exact ⟨fun h => ⟨fun now => absurd now ended, h⟩, fun h => h.2⟩

theorem Runs.player {g g' : Game} {moves : List (Game × Move)} (run : g.Runs moves g')
    (coherent : g.stage.Fit) :
    g'.console.player = g.console.player.after (happened moves) := by
  induction run with
  | nil => rfl
  | @cons g g' m moves step rest ih =>
    have steps := step_cases coherent.coherent step
    rw [ih (steps.fit coherent), steps.player]
    exact (Player.after_append _ _ _).symm

/-! ## What is printed -/

/-- What a game that was ended has printed is what the player had then. -/
theorem Steps.printed {g : Game} {m : Move} (h : g.Steps m) {money : Int64}
    (mem : .gameOver money ∈ m.game.console.printed.toList) :
    .gameOver money ∈ g.console.printed.toList ∨ ∃ before after,
      m.events = before ++ .call .gameOver :: after ∧
      money = (g.console.player.after before).money := by
  obtain ⟨c, player, -, printed, calls⟩ := h.calls
  rw [calls] at mem
  rw [← player, ← printed]
  exact Console.performAll_calls_printed mem

theorem Runs.printed {g g' : Game} {moves : List (Game × Move)} (run : g.Runs moves g')
    (fit : g.stage.Fit) {money : Int64} (mem : .gameOver money ∈ g'.console.printed.toList) :
    .gameOver money ∈ g.console.printed.toList ∨ ∃ before after,
      happened moves = before ++ .call .gameOver :: after ∧
      money = (g.console.player.after before).money := by
  induction run with
  | nil => exact .inl mem
  | @cons g g' m moves step rest ih =>
    have steps := step_cases fit.coherent step
    rcases ih (steps.fit fit) mem with old | ⟨before, after, split, now⟩
    · rcases steps.printed old with old | ⟨before, after, split, now⟩
      · exact .inl old
      · refine .inr ⟨before, after ++ happened moves, ?_, now⟩
        simp [happened, split]
    · refine .inr ⟨m.events ++ before, after, ?_, ?_⟩
      · rw [List.append_assoc, ← split]
        rfl
      · rw [now, steps.player, Player.after_append]

/-! ## Whole games -/

theorem new_fit (d : Director) (entropy : Generator) (start : Date) (player : Player) :
    Stage.Fit ⟨d.interpreter entropy, .new start player⟩ where
  coherent := .inl ⟨rfl, rfl⟩
  resolved := fun _ mem => absurd mem List.not_mem_nil
  unasked := fun _ => rfl

/-- The end of a game is final exactly if all that ended it was quiet, and then the amount that was
printed is what the player still has. -/
theorem final_iff_quiet (director : Director) {entropy : Generator} {start : Date}
    {player : Player} {limit : Nat} {input : List (Option String)} {first : Move}
    {moves : List (Game × Move)} {g : Game}
    (begun : first = new director (director.interpreter entropy) (.new start player) limit input)
    (run : first.game.Runs moves g) :
    (player.Final (first.events ++ happened moves) ↔
      ∀ x ∈ moves, .call .gameOver ∈ x.2.events → x.1.Quiet) ∧
    (player.Final (first.events ++ happened moves) →
      ∀ money, .gameOver money ∈ g.console.printed.toList → g.console.player.money = money) := by
  have fresh := new_fit director entropy start player
  have faithful := director.faithful_launch
    (Stage.mk (director.interpreter entropy) (Console.new start player))
  have fit : first.game.stage.Fit := by
    rw [begun]
    exact director.launch_fit fresh
  have silent : .call .gameOver ∉ first.events := by
    rw [begun, ← Stage.gameOver_mem_heard]
    exact director.launch_silent fresh rfl
  have opened : first.game.console.player = player.after first.events := by
    rw [begun]
    exact faithful.player
  constructor
  · rw [Player.final_append silent, ← Player.final_heard, ← opened]
    exact run.final_iff fit
  · intro final money mem
    rcases run.printed fit mem with old | ⟨before, after, split, now⟩
    · have calls : first.game.console =
          Host.performAll (.new start player) (first.events.filterMap Event.call?) := by
        rw [begun]
        exact faithful
      rw [calls] at old
      rcases Console.performAll_calls_printed old with old | ⟨before, after, split, -⟩
      · exact absurd old List.not_mem_nil
      · exact absurd (by simp [split]) silent
    · have harmless := final (first.events ++ before) after (by rw [split, List.append_assoc])
      have same := harmless.2 after List.prefix_rfl
      rw [run.player fit, opened, split, Player.after_append, Player.after_cons, now, opened,
        ← Player.after_append]
      exact congrArg Player.money same

/-- The game of a single scenario, begun on the last day of a year. -/
def lastDay (g : Graph) : Move :=
  let director := (Director.new { Config.default with seed := some 1 } [g]).1
  let today : Date := ⟨739250, by decide, by decide⟩
  new director (director.interpreter (.ofSeed 1)) (.new today .initial) 1 []

def farewell : Graph where
  name := "salary"
  nodes := [⟨"start", .start "salary"⟩, ⟨"fired", .result [⟨.salary, .set, 0⟩]⟩, ⟨"end", .final⟩]
  links := [⟨"start", "start", "fired"⟩, ⟨"fired", "output", "end"⟩]
  valid := Document.fault?_eq_none (by decide)

theorem final_iff_quiet_farewell :
    let first := lastDay farewell
    let (moves, g) := played 2 first.game
    (∀ x ∈ moves, .call .gameOver ∈ x.2.events → x.1.Quiet) ∧ g.console.player.money = 4000 := by
  have final : Player.initial.Final
      ((lastDay farewell).events ++ happened (played 2 (lastDay farewell).game).1) := by
    have events : heard ((lastDay farewell).events ++
          happened (played 2 (lastDay farewell).game).1) =
        [.call .startClock, .call .creditMonthly, .sent (.started "salary"), .call (.pause true),
          .call (.edit [⟨.salary, .set, 0⟩]), .sent (.finished "salary"), .call .hide,
          .call (.pause false)] ++ .call .gameOver :: [.call .reset, .call .deductDaily] := rfl
    rw [← Player.final_heard, events, Player.final_split (by simp) (by simp)]
    refine ⟨by simp, ?_⟩
    rw [Player.untouched_cons, Player.untouched_cons]
    exact ⟨rfl, rfl, Player.untouched_nil _⟩
  obtain ⟨quiet, money⟩ := final_iff_quiet (lastDay farewell).game.director rfl
    (runs_played 2 (lastDay farewell).game)
  exact ⟨quiet.1 final, money final 4000 (by decide)⟩

/-- A salary that is paid and no more. -/
def payday : Graph where
  name := "salary"
  nodes := [⟨"start", .start "salary"⟩, ⟨"end", .final⟩]
  links := [⟨"start", "start", "end"⟩]
  valid := Document.fault?_eq_none (by decide)

/-- The salary of the last day's morrow ends the game, and then a day is deducted. -/
theorem payday_deducted :
    ¬ Player.initial.Final
        ((lastDay payday).events ++ happened (played 2 (lastDay payday).game).1) ∧
      (run 3 (lastDay payday).game).map
          (fun x => (x.1, x.2.console.printed.toList, x.2.console.player.money)) =
        some (.finished, [.gameOver 4000], 3900) := by
  refine ⟨?_, rfl⟩
  have events : heard ((lastDay payday).events ++ happened (played 2 (lastDay payday).game).1) =
      [.call .startClock, .call .creditMonthly, .sent (.started "salary"), .call (.pause true),
        .sent (.finished "salary"), .call .hide, .call (.pause false)] ++
      .call .gameOver :: [.call .reset, .call .deductDaily] := rfl
  rw [← Player.final_heard, events, Player.final_split (by simp) (by simp)]
  rintro ⟨-, untouched⟩
  have same := untouched _ List.prefix_rfl
  revert same
  decide

end Game

end Storyline
