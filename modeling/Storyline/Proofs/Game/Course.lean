import Storyline.Proofs.Director.Clock
import Storyline.Proofs.Director.Milestones
import Storyline.Proofs.Game.GameOver

/-!
# The course of a game

* `Game.Runs.chronicle`: a game is a chronicle of its director.
* `Game.Underway`: what holds between any two moves.
* `Game.course`: how salaries, the year and the clock go in every game.
-/

namespace Storyline.Game

def Announces (g : Game) (m : Move) (day : NewDay) : Prop :=
  ∃ console, g.console.nextPending? = some (day, console) ∧
    m = { g with days := g.days + 1 }.after
      (g.director.announce day ⟨g.stage.interpreter, console⟩)

/-- Nothing is being played and no day is pending, so that a move lets the clock move on. -/
def waits (g : Game) : Bool :=
  !g.stage.interpreter.isActive && g.console.nextPending?.isNone

/-! ## Games as chronicles -/

theorem Steps.chronicle {g : Game} {m : Move} (h : g.Steps m) :
    ∃ days acts, g.director.Chronicle g.stage days acts m.events m.game.stage ∧
      m.game.days = g.days + days.length ∧ m.game.director = g.director ∧
      m.game.limit = g.limit := by
  cases h with
  | ticks phase move =>
    subst move
    exact ⟨_, _, .handles .nil (.tick frame) rfl, rfl, rfl, rfl⟩
  | @answers id choices choice rest phase move =>
    subst move
    exact ⟨_, _, .handles .nil (.choose choice) rfl, rfl, rfl, rfl⟩
  | arrives phase move =>
    subst move
    rw [resume_eq]
    split
    · exact ⟨_, _, .handles (.arrives .nil) .skipEnded rfl, rfl, rfl, rfl⟩
    · exact ⟨_, _, .arrives .nil, rfl, rfl, rfl⟩
  | announces idle alive pending move =>
    subst move
    exact ⟨_, _, .announces .nil pending, rfl, rfl, rfl⟩
  | waits idle alive pending tomorrow move =>
    subst move
    exact ⟨_, _, .waits .nil tomorrow, rfl, rfl, rfl⟩

theorem Runs.chronicle {g g' : Game} {moves : List (Game × Move)} (run : g.Runs moves g')
    (coherent : g.stage.interpreter.Coherent) :
    ∃ days acts, g.director.Chronicle g.stage days acts (happened moves) g'.stage ∧
      g'.days = g.days + days.length ∧ g'.director = g.director ∧ g'.limit = g.limit := by
  induction run with
  | nil => exact ⟨[], [], .nil, rfl, rfl, rfl⟩
  | @cons g g' m moves step rest ih =>
    obtain ⟨days, acts, first, count, director, limit⟩ := (step_cases coherent step).chronicle
    obtain ⟨days', acts', later, count', director', limit'⟩ := ih (first.coherent coherent)
    rw [director] at later
    refine ⟨days ++ days', acts ++ acts', first.trans later, ?_, director'.trans director,
      limit'.trans limit⟩
    rw [count', count, List.length_append, Nat.add_assoc]

theorem Runs.split {g g' : Game} {before after : List (Game × Move)} {x : Game × Move}
    (run : g.Runs (before ++ x :: after) g') :
    g.Runs before x.1 ∧ x.1.step = .ok x.2 ∧ x.2.game.Runs after g' := by
  induction before generalizing g with
  | nil =>
    cases run with
    | cons step rest => exact ⟨.nil, step, rest⟩
  | cons y before ih =>
    cases run with
    | cons step rest =>
      obtain ⟨first, now, later⟩ := ih rest
      exact ⟨.cons step first, now, later⟩

/-! ## Between two moves -/

/-- What holds of a game between any two moves. -/
structure Underway (start : Date) (g : Game) : Prop where
  coherent : g.stage.interpreter.Coherent
  tended : g.stage.Tended
  announced : ∃ days, g.console.Announced start days ∧ days.length = g.days

theorem Runs.underway {start : Date} {g g' : Game} {moves : List (Game × Move)}
    (run : g.Runs moves g') (h : g.Underway start) : g'.Underway start := by
  obtain ⟨days', acts, chronicle, count, -, -⟩ := run.chronicle h.coherent
  obtain ⟨days, announced, length⟩ := h.announced
  refine ⟨chronicle.coherent h.coherent, chronicle.tended h.coherent h.tended, days ++ days',
    chronicle.announced announced, ?_⟩
  rw [List.length_append, length, count]

theorem Runs.during {start : Date} {g g' : Game} {before after : List (Game × Move)}
    {x : Game × Move} (run : g.Runs (before ++ x :: after) g') (h : g.Underway start) :
    g.Runs before x.1 ∧ x.1.Underway start ∧ x.1.step = .ok x.2 ∧ x.1.director = g.director ∧
      x.2.game.Underway start ∧ x.2.game.Runs after g' := by
  obtain ⟨earlier, step, later⟩ := run.split
  obtain ⟨-, -, -, -, same, -⟩ := earlier.chronicle h.coherent
  have there := earlier.underway h
  exact ⟨earlier, there, step, same, Runs.underway (.cons step .nil) there, later⟩

theorem new_underway (director : Director) (entropy : Generator) (start : Date) (player : Player)
    (limit : Nat) (input : List (Option String)) (awake : director.config.sandbox = false) :
    (new director (director.interpreter entropy) (.new start player) limit input).game.Underway
      start := by
  unfold new
  rw [Director.launch_awake awake]
  have announced := Console.announced_new start player
  exact ⟨.inl ⟨rfl, rfl⟩, ⟨awake, .inl rfl, fun _ => rfl⟩, [],
    announced.onward ⟨rfl, Int.le_refl _, rfl⟩, rfl⟩

theorem Underway.numbered {start : Date} {g : Game} (h : g.Underway start) :
    (g.days : Int) = g.console.announced.day - start.day := by
  obtain ⟨days, announced, length⟩ := h.announced
  have since : start.day ≤ g.console.announced.day := announced.since
  rw [← length, announced.length]
  omega

/-! ## Announcements -/

theorem Steps.idle_of_announces {g : Game} {m : Move} (h : g.Steps m) {day : NewDay}
    (announces : g.Announces m day) :
    g.stage.interpreter.Idle ∧ g.console.gameOver = false := by
  obtain ⟨console, pending, move⟩ := announces
  have counted : m.game.days = g.days + 1 := by rw [move]; rfl
  cases h with
  | announces idle alive => exact ⟨idle, alive⟩
  | ticks phase same =>
    rw [same] at counted
    exact absurd counted (Nat.ne_of_lt (Nat.lt_succ_self _))
  | answers phase same =>
    rw [same] at counted
    exact absurd counted (Nat.ne_of_lt (Nat.lt_succ_self _))
  | arrives phase same =>
    rw [same] at counted
    exact absurd counted (Nat.ne_of_lt (Nat.lt_succ_self _))
  | waits idle alive none =>
    rw [none] at pending
    contradiction

theorem Announces.flags {g : Game} {m : Move} {day : NewDay} (h : g.Announces m day) :
    (day.newMonth = true ↔ day.date.dayOfMonth = 1) ∧
      (day.newYear = true ↔ day.date.FirstOfYear) := by
  obtain ⟨console, pending, -⟩ := h
  obtain ⟨-, next, -⟩ := Console.nextPending?_eq_some pending
  exact ⟨NewDay.newMonth_iff next, NewDay.newYear_iff next⟩

/-- A month that begins pays the salary and starts its scenario. -/
theorem Announces.salary {g : Game} {m : Move} {day : NewDay} (h : g.Announces m day)
    (idle : g.stage.interpreter.Idle) {salary : Graph}
    (found : g.director.library.find? g.director.config.salaryScenario = some salary)
    (month : day.newMonth = true) :
    ∃ id category rest, salary.start? = some ⟨id, .start category⟩ ∧
      m.events = (if day.newYear then [.notice (.yearPassed day.date)] else []) ++
        .call .creditMonthly :: .notice (.scenarioStarted salary.name category) ::
          (sessionOpening category ++ rest) := by
  obtain ⟨console, pending, move⟩ := h
  obtain ⟨id, category, first⟩ := salary.exists_start
  obtain ⟨rest, -, events⟩ := Director.boundaries_events (d := g.director)
    (s := ⟨g.stage.interpreter, console⟩) idle day
  have payday : g.director.payday =
      .notice (.scenarioStarted salary.name category) :: sessionOpening category := by
    simp only [Director.payday, found, Option.elim_some, Stage.Request.prologue, first]
    rfl
  let late := (Director.dayPassed
    (g.director.boundaries day ⟨g.stage.interpreter, console⟩).stage).events
  refine ⟨id, category, rest ++ late, first, ?_⟩
  rw [move, after, Director.announce_eq, Turn.events_andThen, events, payday, if_pos month]
  simp only [List.append_assoc, List.cons_append]
  rfl

/-- The day on which a year begins brings the game to its end. -/
theorem Announces.closing {g : Game} {m : Move} {day : NewDay} (h : g.Announces m day)
    (idle : g.stage.interpreter.Idle) {salary : Graph}
    (found : g.director.library.find? g.director.config.salaryScenario = some salary)
    (first : day.date.FirstOfYear) : m.game.stage.Closing := by
  have month : day.newMonth = true := h.flags.1.2 first.2
  have year : day.newYear = true := h.flags.2.2 first
  obtain ⟨console, pending, move⟩ := h
  obtain ⟨id, category, opens⟩ := salary.exists_start
  -- The year has requested the end when the salary scenario is started.
  let asked : Stage Console :=
    ⟨{ g.stage.interpreter with endRequested := true }, Console.perform .creditMonthly console⟩
  have still : asked.interpreter.Idle := idle
  have started : (asked.serve (.start salary)).stage.Closing :=
    Stage.serve_closing (.inl still) rfl (by simp) fun _ => ⟨salary, id, category, .start opens⟩
  have coherent : (asked.serve (.start salary)).stage.interpreter.Coherent :=
    (Stage.serves (.inl still) (.start salary)).coherent
  have begun : (g.director.boundaries day ⟨g.stage.interpreter, console⟩).stage =
      (asked.serve (.start salary)).stage := by
    simp only [Director.boundaries, year, month, if_true, Director.yearPassed,
      Director.monthPassed, Director.start, found]
    rfl
  have last : m.game.stage = ((asked.serve (.start salary)).stage.actAll
      (g.director.commandActs (.dayPassed day.date))).stage := by
    rw [move, after, Director.announce_eq, Turn.stage_andThen, begun]
    exact congrArg Turn.stage (g.director.handle_eq _ (.dayPassed day.date))
  rw [last]
  exact Stage.actAll_closing started coherent (g.director.commandActs_plain _)

theorem Runs.closing {g g' : Game} {moves : List (Game × Move)} (run : g.Runs moves g')
    (coherent : g.stage.interpreter.Coherent) (closing : g.stage.Closing) : g'.stage.Closing := by
  obtain ⟨days, acts, chronicle, -⟩ := run.chronicle coherent
  exact chronicle.closing coherent closing

/-- In a game that is coming to its end no day is announced. -/
theorem not_announces_of_closing {g : Game} {m : Move} (h : g.Steps m) (closing : g.stage.Closing)
    (day : NewDay) : ¬ g.Announces m day := by
  intro announces
  obtain ⟨idle, alive⟩ := h.idle_of_announces announces
  have isOver : g.console.gameOver = true := closing.gameOver idle
  rw [alive] at isOver
  contradiction

theorem Runs.last {start : Date} {g g' : Game} {moves : List (Game × Move)} (run : g.Runs moves g')
    (h : g.Underway start) (closing : g.stage.Closing) :
    (∀ x ∈ moves, ∀ day, ¬ x.1.Announces x.2 day) ∧
      (g'.stage.interpreter.Idle → g'.console.gameOver = true) := by
  constructor
  · intro x mem
    obtain ⟨before, after, rfl⟩ := List.append_of_mem mem
    obtain ⟨earlier, there, step, -⟩ := run.during h
    exact not_announces_of_closing (step_cases there.coherent step)
      (earlier.closing h.coherent closing)
  · exact (run.closing h.coherent closing).gameOver

/-! ## The end of the moves -/

/-- Why a game can be left. -/
inductive Leaves (g : Game) : End → Prop where
  | over (gameOver : g.console.gameOver = true) : Leaves g .finished
  | enough (idle : g.stage.interpreter.Idle) (pending : g.console.nextPending? = none)
      (ticking : g.console.ticking = true) (days : g.limit ≤ g.days) : Leaves g .finished
  | unread {rest : List (Option String)} (asks : g.wantsInput = true)
      (input : g.input = none :: rest) : Leaves g .inputUnread
  | last (idle : g.stage.interpreter.Idle) (pending : g.console.nextPending? = none)
      (today : g.console.today = Date.last) : Leaves g .calendarOver

theorem leaves_of_idle {start : Date} {g : Game} (h : g.Underway start)
    (idle : g.stage.interpreter.Idle) (awake : g.director.config.sandbox = false) {why : End}
    (ended : g.idleStep = .error why) : g.Leaves why := by
  unfold idleStep at ended
  split at ended
  · rename_i isOver
    obtain rfl := Except.error.inj ended
    rw [awake, Bool.or_false] at isOver
    exact .over isOver
  · rename_i playing
    have alive : g.console.gameOver = false := by
      simp only [Bool.or_eq_true, not_or, Bool.not_eq_true] at playing
      exact playing.1
    have running : g.console.clockRunning = true := by
      rcases h.tended.alive with running | isOver
      · exact running
      · have isOver : g.console.gameOver = true := isOver
        rw [alive] at isOver
        contradiction
    have unpaused : g.console.paused = false := h.tended.unpaused idle
    have ticking : g.console.ticking = true := by
      simp [Console.ticking, running, unpaused, alive]
    split at ended
    · contradiction
    · rename_i pending
      split at ended
      · rename_i stopped
        obtain rfl := Except.error.inj ended
        simp only [ticking, Bool.not_true, Bool.false_or, decide_eq_true_eq] at stopped
        exact .enough idle pending ticking stopped
      · split at ended
        · contradiction
        · rename_i none
          obtain rfl := Except.error.inj ended
          exact .last idle pending (Date.next?_eq_none_iff.1 (Option.map_eq_none_iff.1 none))

theorem leaves {start : Date} {g : Game} (h : g.Underway start)
    (awake : g.director.config.sandbox = false) {why : End} (ended : g.step = .error why) :
    g.Leaves why := by
  obtain ⟨days, announced, -⟩ := h.announced
  unfold step at ended
  rw [announced.inside] at ended
  simp only [Bool.false_eq_true, if_false] at ended
  split at ended
  · rename_i active
    split at ended
    · contradiction
    · rename_i id choices phase
      unfold answer at ended
      split at ended
      · contradiction
      · rename_i rest input
        obtain rfl := Except.error.inj ended
        obtain ⟨session, playing⟩ := Option.isSome_iff_exists.1 active
        have asks : g.wantsInput = true := by simp [wantsInput, playing, phase]
        exact .unread asks input
      · contradiction
    · contradiction
    · rename_i phase
      exact leaves_of_idle h (h.coherent.idle_of_phase phase) awake ended
  · rename_i inactive
    exact leaves_of_idle h (h.coherent.idle_of_inactive (by simpa using inactive)) awake ended

/-! ## How often the clock moves on -/

/-- Whether a day is pending. -/
def backlog (g : Game) : Nat :=
  if g.console.announced < g.console.today then 1 else 0

theorem tomorrow_of_waits {g : Game} {m : Move} (h : g.step = .ok m) (waits : g.waits = true) :
    g.console.nextPending? = none ∧ g.days < g.limit ∧
      ∃ console, g.console.tomorrow? = some console ∧
        m = g.after (.still ⟨g.stage.interpreter, console⟩) := by
  simp only [Game.waits, Bool.and_eq_true, Bool.not_eq_true', Option.isNone_iff_eq_none] at waits
  obtain ⟨inactive, pending⟩ := waits
  unfold step at h
  split at h
  · contradiction
  · simp only [inactive, Bool.false_eq_true, if_false, idleStep, pending] at h
    split at h
    · contradiction
    · split at h
      · contradiction
      · rename_i few
        split at h
        · rename_i console tomorrow
          simp only [Bool.or_eq_true, decide_eq_true_eq, not_or, Nat.not_le] at few
          exact ⟨pending, few.2, console, tomorrow, (Except.ok.inj h).symm⟩
        · contradiction

theorem backlog_le_one (g : Game) : g.backlog ≤ 1 := by
  unfold backlog
  split
  · exact Nat.le_refl 1
  · exact Nat.zero_le 1

theorem backlog_eq_zero {g : Game} (pending : g.console.nextPending? = none) : g.backlog = 0 := by
  have upToDate : ¬ g.console.announced < g.console.today :=
    Int.not_lt.2 (Console.nextPending?_eq_none_iff.1 pending)
  unfold backlog
  rw [if_neg upToDate]

theorem backlog_le {start : Date} {g g' : Game} (h : g.Underway start) (h' : g'.Underway start)
    (same : g'.days = g.days) (later : g.console.today ≤ g'.console.today) :
    g.backlog ≤ g'.backlog := by
  have numbered := h.numbered
  have numbered' := h'.numbered
  have later : g.console.today.day ≤ g'.console.today.day := later
  unfold backlog
  split
  · rename_i behind
    have behind : g.console.announced.day < g.console.today.day := behind
    have still : g'.console.announced < g'.console.today := by
      show g'.console.announced.day < g'.console.today.day
      omega
    exact Nat.le_of_eq (if_pos still).symm
  · exact Nat.zero_le _

/-- Each day on which the clock moves on is pending or has been announced. -/
theorem counted_of_step {start : Date} {g : Game} {m : Move} (step : g.step = .ok m)
    (h : g.Underway start) :
    (if g.waits then 1 else 0) + (g.days + g.backlog) ≤ m.game.days + m.game.backlog := by
  obtain ⟨days, acts, chronicle, count, -⟩ := (step_cases h.coherent step).chronicle
  by_cases waits : g.waits = true
  · -- The clock moves on only while no day is pending, so the new day is the only one that is.
    obtain ⟨pending, -, console, tomorrow, move⟩ := tomorrow_of_waits step waits
    obtain ⟨date, next, rfl⟩ := Option.map_eq_some_iff.1 tomorrow
    have none := backlog_eq_zero pending
    have one : m.game.backlog = 1 := by
      obtain ⟨days, announced, -⟩ := h.announced
      have upTo : g.console.announced.day ≤ g.console.today.day := announced.upTo
      have day := Date.day_of_next? next
      have behind : m.game.console.announced < m.game.console.today := by
        rw [move]
        show g.console.announced.day < date.day
        omega
      unfold backlog
      rw [if_pos behind]
    rw [if_pos waits, none, one]
    omega
  · have one := g.backlog_le_one
    rw [if_neg waits]
    cases days with
    | nil =>
      have after : m.game.Underway start :=
        Runs.underway (.cons step .nil) h
      have later := backlog_le h after count chronicle.today_le
      have count : m.game.days = g.days := count
      omega
    | cons day days =>
      rw [List.length_cons] at count
      omega

theorem Runs.waits_le {start : Date} {g g' : Game} {moves : List (Game × Move)}
    (run : g.Runs moves g') (h : g.Underway start) {n : Nat} (few : n ≤ g.days + g.backlog)
    (bound : n ≤ g.limit) : n + moves.countP (fun x => x.1.waits) ≤ g.limit := by
  -- Here `n` is how often the clock has moved on before, each time with a day of its own.
  induction run generalizing n with
  | nil => exact bound
  | @cons g g' m moves step rest ih =>
    have counted := counted_of_step step h
    have after : m.game.Underway start := Runs.underway (.cons step .nil) h
    obtain ⟨-, -, -, -, -, limit⟩ := (step_cases h.coherent step).chronicle
    by_cases waits : g.waits = true
    · obtain ⟨pending, below, -⟩ := tomorrow_of_waits step waits
      have none := backlog_eq_zero pending
      rw [if_pos waits] at counted
      have next := ih after (n := n + 1) (by omega) (by omega)
      rw [limit] at next
      simp only [List.countP_cons, waits, if_true]
      omega
    · rw [if_neg waits] at counted
      have next := ih after (n := n) (by omega) (by omega)
      rw [limit] at next
      simp only [List.countP_cons, waits]
      simpa using next

/-! ## Whole games -/

/-- However a game is played, its days are announced while nothing is being played, so every month
pays the salary and starts its scenario; no day is announced after the first of a year; and the game
is left only once it is over, has gone on long enough, or lacks a line of input or a day. -/
theorem course (director : Director) {entropy : Generator} {start : Date} {player : Player}
    {limit : Nat} {input : List (Option String)} {salary : Graph} {first : Move}
    {moves : List (Game × Move)} {g : Game} (awake : director.config.sandbox = false)
    (found : director.library.find? director.config.salaryScenario = some salary)
    (begun : first = new director (director.interpreter entropy) (.new start player) limit input)
    (run : first.game.Runs moves g) :
    (∀ x ∈ moves, ∀ day, x.1.Announces x.2 day →
      x.1.stage.interpreter.Idle ∧ (day.newMonth = true ↔ day.date.dayOfMonth = 1) ∧
        (day.newMonth = true → ∃ id category rest, salary.start? = some ⟨id, .start category⟩ ∧
          x.2.events = (if day.newYear then [.notice (.yearPassed day.date)] else []) ++
            .call .creditMonthly :: .notice (.scenarioStarted salary.name category) ::
              (sessionOpening category ++ rest))) ∧
    (∀ before x after day, moves = before ++ x :: after → x.1.Announces x.2 day →
      day.date.FirstOfYear → (∀ y ∈ after, ∀ day', ¬ y.1.Announces y.2 day') ∧
        (g.stage.interpreter.Idle → g.console.gameOver = true)) ∧
    (∀ why, g.step = .error why → g.Leaves why) ∧
    (∀ x ∈ moves, x.1.waits = true → ∃ console, x.1.console.tomorrow? = some console ∧
      x.2 = x.1.after (.still ⟨x.1.stage.interpreter, console⟩)) ∧
    moves.countP (fun x => x.1.waits) ≤ limit ∧
    g.limit = limit ∧ (g.days : Int) = g.console.announced.day - start.day := by
  subst begun
  have underway := new_underway director entropy start player limit input awake
  obtain ⟨-, -, chronicle, -, owned, limited⟩ := run.chronicle underway.coherent
  refine ⟨?_, ?_, ?_, ?_, ?_, limited, (run.underway underway).numbered⟩
  · intro x mem day announces
    obtain ⟨before, after, rfl⟩ := List.append_of_mem mem
    obtain ⟨-, there, step, same, -⟩ := run.during underway
    obtain ⟨idle, -⟩ := (step_cases there.coherent step).idle_of_announces announces
    have found : x.1.director.library.find? x.1.director.config.salaryScenario = some salary := by
      rw [same]
      exact found
    exact ⟨idle, announces.flags.1, announces.salary idle found⟩
  · rintro before x after day rfl announces first
    obtain ⟨-, there, step, same, next, later⟩ := run.during underway
    obtain ⟨idle, -⟩ := (step_cases there.coherent step).idle_of_announces announces
    have found : x.1.director.library.find? x.1.director.config.salaryScenario = some salary := by
      rw [same]
      exact found
    exact later.last next (announces.closing idle found first)
  · intro why ended
    apply leaves (run.underway underway) _ ended
    rw [owned]
    exact awake
  · intro x mem waits
    obtain ⟨before, after, rfl⟩ := List.append_of_mem mem
    obtain ⟨-, -, step, -⟩ := run.during underway
    exact (tomorrow_of_waits step waits).2.2
  · have few := run.waits_le underway (Nat.zero_le _) (Nat.zero_le _)
    rwa [Nat.zero_add] at few

/-- A game that ends on the first day of a year, with its salary. -/
theorem course_payday :
    let moves := (played 2 (lastDay payday).game).1
    let g := (played 2 (lastDay payday).game).2
    (∃ x ∈ moves, ∃ day, x.1.Announces x.2 day ∧ day.date.FirstOfYear ∧
      x.1.stage.interpreter.Idle) ∧
    moves.countP (fun x => x.1.waits) ≤ 1 ∧ g.Leaves .finished := by
  intro moves g
  have found : (lastDay payday).game.director.library.find? "salary" = some payday := rfl
  obtain ⟨announced, -, leaves, -, few, -⟩ :=
    course (lastDay payday).game.director rfl found rfl (runs_played 2 (lastDay payday).game)
  refine ⟨?_, few, leaves .finished rfl⟩
  have mem : moves[1] ∈ moves := List.getElem_mem _
  have announces : moves[1].1.Announces moves[1].2
      ⟨⟨739251, by decide, by decide⟩, true, true⟩ := by
    refine ⟨{ moves[1].1.console with announced := ⟨739251, by decide, by decide⟩ }, ?_, ?_⟩
    · have next : NewDay.after? moves[1].1.console.announced =
          some ⟨⟨739251, by decide, by decide⟩, true, true⟩ := by decide
      unfold Console.nextPending?
      rw [if_pos (by decide), next]
      rfl
    · rfl
  exact ⟨moves[1], mem, _, announces, by decide, (announced _ mem _ announces).1⟩

end Storyline.Game
