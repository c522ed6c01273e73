import Storyline.Proofs.Director.LateEvents
import Storyline.Proofs.Game.Course

/-!
# Late events in a game

A time skip moves the day ahead at once, and the days that it has jumped over are announced
afterwards. A late event that is due by then does not wait for them.

* `Game.approach?`: what a move does before it looks for a late event.
* `Director.InTurn`: a late event comes after all that marks the days up to its own.
* `Game.late_inTurn_iff`: exactly those do whose day has been announced.
-/

namespace Storyline

/-- The late event of a date comes after all that marks the days up to that date. -/
def Director.InTurn (d : Director) (start due : Date) (es : List Event) : Prop :=
  (start.span due).flatMap d.marks <+: milestones es

theorem Director.count_marks (d : Director) (dates : List Date) :
    (dates.flatMap d.marks).count (.call .deductDaily) = dates.length := by
  induction dates with
  | nil => rfl
  | cons date dates ih =>
    have quiet : (milestones d.payday).count (.call .deductDaily) = 0 := by
      apply List.count_eq_zero.2
      intro mem
      have mem : .call .deductDaily ∈ d.payday := (List.mem_filter.1 mem).1
      rcases d.payday_cases with missing | ⟨name, category, starts⟩
      · simp [missing] at mem
      · simp [starts, sessionOpening] at mem
    have once : (d.marks date).count (.call .deductDaily) = 1 := by
      unfold marks
      by_cases year : date.FirstOfYear
      · simp [year, year.2, quiet]
      · by_cases month : date.dayOfMonth = 1
        · simp [year, month, quiet]
        · simp [year, month]
    rw [List.flatMap_cons, List.count_append, once, ih, List.length_cons, Nat.add_comm]

theorem Director.inTurn_iff (d : Director) {start due announced : Date} (since : start ≤ announced)
    {es : List Event} (marked : milestones es = (start.span announced).flatMap d.marks) :
    d.InTurn start due es ↔ due ≤ announced := by
  unfold InTurn
  rw [marked]
  constructor
  · intro first
    -- Every day is deducted once, so as many days are marked as have been announced.
    have fewer := first.sublist.count_le (.call .deductDaily)
    rw [d.count_marks, d.count_marks, Date.length_span since] at fewer
    have since : start.day ≤ announced.day := since
    show due.day ≤ announced.day
    by_cases early : start.day ≤ due.day
    · rw [Date.length_span early] at fewer
      omega
    · omega
  · intro early
    obtain ⟨rest, split⟩ := start.span_prefix early
    rw [← split, List.flatMap_append]
    exact List.prefix_append _ _

/-! ## What is announced meanwhile -/

theorem Console.perform_announced (c : Console) (call : Call) :
    (Console.perform call c).announced = c.announced := by
  cases call with
  | advance days =>
    simp only [Console.perform, advance]
    split <;> rfl
  | _ => rfl

theorem Console.performAll_announced (c : Console) (calls : List Call) :
    (Host.performAll c calls).announced = c.announced := by
  have same : ∀ call ∈ calls, ∀ c' : Console, c'.announced = c.announced →
      (Console.perform call c').announced = c.announced :=
    fun call _ c' before => (c'.perform_announced call).trans before
  exact Host.performAll_preserves (P := fun c' : Console => c'.announced = c.announced) same rfl

namespace Stage

theorem Faithful.announced {s : Stage Console} {t : Turn Console} (h : s.Faithful t) :
    t.stage.host.announced = s.host.announced := by
  rw [h, Console.performAll_announced]

theorem startDue_milestones {s : Stage Console} (coherent : s.interpreter.Coherent) :
    milestones (Director.startDue s).events = [] := by
  rcases Director.startDue_cases s with still | ⟨inactive, due, c, rest, -, starts⟩
  · rw [still]
    rfl
  · have idle := coherent.idle_of_inactive inactive
    obtain ⟨later, played, events⟩ := serve_played
      (s := s.modify fun i => { i with agenda := rest }) (.inl idle) (.startAt c)
    rw [starts, events, milestones_append, played.milestones, List.append_nil]
    split <;> rfl

end Stage

namespace Game

/-- What a move does before it looks for a late event, if it looks for one. -/
def approach? (g : Game) : Option (Turn Console) :=
  match g.stage.interpreter.phase with
  | .running => some (g.stage.tick frame)
  | .idle => g.console.nextPending?.map fun (day, console) =>
    (g.director.boundaries day ⟨g.stage.interpreter, console⟩).andThen (·.call .deductDaily)
  | .paused _ => none

/-- What a move has done when it looks for a late event. -/
structure Approached (start : Date) (g : Game) (m : Move) (t : Turn Console) : Prop where
  fit : t.stage.Fit
  events : m.events = t.events ++ (Director.startDue t.stage).events
  announced : m.game.console.announced = t.stage.host.announced
  since : start ≤ t.stage.host.announced
  quiet : ∀ name id, .notice (.lateStarted name id) ∉ t.events
  marked : ∀ es, milestones es = (start.span g.console.announced).flatMap g.director.marks →
    milestones (es ++ t.events) = (start.span t.stage.host.announced).flatMap g.director.marks

theorem approached_of_ticks {start : Date} {g : Game} (underway : g.Underway start)
    (fit : g.stage.Fit) :
    Approached start g (g.after (Director.tick frame g.stage)) (g.stage.tick frame) := by
  obtain ⟨days, announced, -⟩ := underway.announced
  have same : (g.stage.tick frame).stage.host.announced = g.console.announced :=
    (g.stage.faithful_tick frame).announced
  have played := Stage.tick_played fit.coherent frame
  refine ⟨Stage.serve_fit (r := .tick frame) fit trivial, rfl,
    (Director.faithful_startDue _).announced, ?_, ?_, ?_⟩
  · rw [same]
    exact announced.since
  · intro name id mem
    exact absurd (played _ mem) (by simp [Event.isPlayed])
  · intro es marked
    rw [same, milestones_append, played.milestones, List.append_nil, marked]

theorem approached_of_announces {start : Date} {g : Game} {day : NewDay} {console : Console}
    (underway : g.Underway start) (fit : g.stage.Fit) (idle : g.stage.interpreter.Idle)
    (alive : g.console.gameOver = false) (pending : g.console.nextPending? = some (day, console)) :
    Approached start g
      ({ g with days := g.days + 1 }.after
        (g.director.announce day ⟨g.stage.interpreter, console⟩))
      ((g.director.boundaries day ⟨g.stage.interpreter, console⟩).andThen
        (·.call .deductDaily)) := by
  obtain ⟨days, announced, -⟩ := underway.announced
  have later := announced.announce pending
  obtain ⟨-, next, rfl⟩ := Console.nextPending?_eq_some pending
  obtain ⟨following, -, -⟩ := NewDay.after?_eq_some next
  let opened : Stage Console := ⟨g.stage.interpreter, { g.console with announced := day.date }⟩
  have openedFit : opened.Fit := ⟨fit.coherent, fit.resolved, fit.unasked⟩
  have bounded := g.director.boundaries_fit day openedFit alive
  have same : (g.director.boundaries day opened).stage.host.announced = day.date :=
    (g.director.faithful_boundaries day opened).announced
  have reported : ((g.director.boundaries day opened).stage.callAll [.deductDaily]).stage.Fit :=
    Stage.callAll_fit bounded (by simp)
  refine ⟨reported, ?_, (Director.faithful_startDue _).announced, ?_,
    Director.announced_unstarted (s := opened) idle day, ?_⟩
  · rw [after, Director.announce_eq]
    exact (List.append_assoc _ _ _).symm
  · show start ≤ (g.director.boundaries day opened).stage.host.announced
    rw [same]
    exact later.since
  · intro es marked
    have marks := Director.announced_milestones (d := g.director) (s := opened) idle
      (NewDay.newMonth_iff next) (NewDay.newYear_iff next)
    show _ = (start.span (g.director.boundaries day opened).stage.host.announced).flatMap _
    -- The announced day is the one that comes after those that are marked.
    rw [same, milestones_append, marked, Date.span_succ announced.since following,
      List.flatMap_append, List.flatMap_singleton]
    exact congrArg _ marks

theorem Steps.approached {start : Date} {g : Game} {m : Move} (h : g.Steps m)
    (underway : g.Underway start) (fit : g.stage.Fit) {t : Turn Console}
    (approach : g.approach? = some t) : Approached start g m t := by
  unfold approach? at approach
  cases h with
  | ticks phase move =>
    rw [phase] at approach
    obtain rfl := Option.some.inj approach
    rw [move]
    exact approached_of_ticks underway fit
  | announces idle alive pending move =>
    simp only [idle.1, pending, Option.map_some, Option.some.injEq] at approach
    rw [move, ← approach]
    exact approached_of_announces underway fit idle alive pending
  | answers phase => simp [phase] at approach
  | arrives phase => simp [phase] at approach
  | waits idle alive pending => simp [idle.1, pending] at approach

/-- A move that looks for no late event starts none and marks no day. -/
theorem Steps.played {g : Game} {m : Move} (h : g.Steps m) (approach : g.approach? = none) :
    Played m.events ∧ m.game.console.announced = g.console.announced := by
  unfold approach? at approach
  cases h with
  | ticks phase => simp [phase] at approach
  | announces idle alive pending => simp [idle.1, pending] at approach
  | @answers id choices choice rest phase move =>
    subst move
    exact ⟨Stage.serve_played_of_closed (s := g.stage) (r := .choose choice) rfl,
      (g.stage.faithful_choose choice).announced⟩
  | arrives phase move =>
    subst move
    rw [resume_eq]
    let arrived : Stage Console := ⟨g.stage.interpreter, g.console.takeArrival.2⟩
    split
    · exact ⟨Stage.serve_played_of_closed (s := arrived) (r := .skipEnded) rfl,
        arrived.faithful_skipEnded.announced⟩
    · exact ⟨by simp [Played, after], rfl⟩
  | waits idle alive pending tomorrow move =>
    subst move
    obtain ⟨date, -, rfl⟩ := Option.map_eq_some_iff.1 tomorrow
    exact ⟨by simp [Played, after], rfl⟩

/-- The move starts the late event of a date, after all that it has done before. -/
def StartsLate (g : Game) (t : Turn Console) (due : Date) (c : Continuation) : Prop :=
  g.approach? = some t ∧ ∃ rest, t.stage.due? = some ((due, c), rest)

theorem Approached.late {start : Date} {g : Game} {m : Move} {t : Turn Console}
    (h : Approached start g m t) (approach : g.approach? = some t) {name : String} {id : NodeId}
    (mem : .notice (.lateStarted name id) ∈ m.events) :
    ∃ due c, g.StartsLate t due c ∧ c.graph.name = name ∧ c.node = id := by
  rw [h.events] at mem
  rcases List.mem_append.1 mem with before | looked
  · exact absurd before (h.quiet name id)
  · cases found : t.stage.due? with
    | none =>
      rw [Stage.startDue_of_none found] at looked
      exact absurd looked List.not_mem_nil
    | some x =>
      obtain ⟨⟨due, c⟩, rest⟩ := x
      refine ⟨due, c, ⟨approach, rest, found⟩, ?_⟩
      have idle : (t.stage.withAgenda rest).interpreter.Coherent :=
        .inl (h.fit.coherent.idle_of_inactive (Stage.takeDue?_of_due? found).1)
      obtain ⟨later, played, events⟩ := Stage.serve_played idle (.startAt c)
      rw [Stage.startDue_of_some found] at looked
      have looked : .notice (.lateStarted name id) ∈
          ((t.stage.withAgenda rest).serve (.startAt c)).events := looked
      rw [events] at looked
      rcases List.mem_append.1 looked with opened | later
      · split at opened
        · simpa [Stage.Request.prologue, sessionOpening, eq_comm] using opened
        · exact absurd opened List.not_mem_nil
      · exact absurd (played _ later) (by simp [Event.isPlayed])

/-! ## Runs -/

theorem Steps.marked {start : Date} {g : Game} {m : Move} (h : g.Steps m)
    (underway : g.Underway start) (fit : g.stage.Fit) {es : List Event}
    (marked : milestones es = (start.span g.console.announced).flatMap g.director.marks) :
    milestones (es ++ m.events) =
      (start.span m.game.console.announced).flatMap g.director.marks := by
  cases approach : g.approach? with
  | none =>
    obtain ⟨played, same⟩ := h.played approach
    rw [same, milestones_append, played.milestones, List.append_nil, marked]
  | some t =>
    have approached := h.approached underway fit approach
    rw [approached.announced, approached.events, ← List.append_assoc, milestones_append,
      Stage.startDue_milestones approached.fit.coherent, List.append_nil]
    exact approached.marked es marked

theorem Runs.marked {start : Date} {g g' : Game} {moves : List (Game × Move)}
    (run : g.Runs moves g') (underway : g.Underway start) (fit : g.stage.Fit) {es : List Event}
    (marked : milestones es = (start.span g.console.announced).flatMap g.director.marks) :
    g'.stage.Fit ∧ milestones (es ++ happened moves) =
      (start.span g'.console.announced).flatMap g.director.marks := by
  induction run generalizing es with
  | nil =>
    refine ⟨fit, ?_⟩
    rw [happened, List.flatMap_nil, List.append_nil, marked]
  | @cons g g' m moves step rest ih =>
    have steps := step_cases underway.coherent step
    obtain ⟨-, -, -, -, same, -⟩ := steps.chronicle
    have next : m.game.Underway start := Runs.underway (.cons step .nil) underway
    have now := steps.marked underway fit marked
    rw [← same] at now
    have later := ih next (steps.fit fit) now
    rw [same, List.append_assoc] at later
    exact later

/-! ## Whole games -/

theorem new_marked (director : Director) (entropy : Generator) (start : Date) (player : Player)
    (limit : Nat) (input : List (Option String)) (awake : director.config.sandbox = false) :
    let first := new director (director.interpreter entropy) (.new start player) limit input
    milestones first.events = (start.span first.game.console.announced).flatMap director.marks := by
  unfold new
  rw [Director.launch_awake awake]
  show _ = (start.span start).flatMap director.marks
  rw [start.span_self]
  rfl

theorem Runs.late {director : Director} {entropy : Generator} {start : Date} {player : Player}
    {limit : Nat} {input : List (Option String)} {first : Move} {before after : List (Game × Move)}
    {x : Game × Move} {g : Game} (awake : director.config.sandbox = false)
    (begun : first = new director (director.interpreter entropy) (.new start player) limit input)
    (run : first.game.Runs (before ++ x :: after) g) :
    (∀ name id, .notice (.lateStarted name id) ∈ x.2.events →
      ∃ t due c, x.1.StartsLate t due c ∧ c.graph.name = name ∧ c.node = id) ∧
    ∀ t due c, x.1.StartsLate t due c →
      let es := first.events ++ happened before ++ t.events
      let console := t.stage.host
      (∃ later, x.2.events = t.events ++
        .notice (.lateStarted c.graph.name c.node) :: (sessionOpening c.category ++ later)) ∧
      milestones es = (start.span console.announced).flatMap director.marks ∧
      due ≤ console.today ∧ (director.InTurn start due es ↔ due ≤ console.announced) := by
  subst begun
  have underway := new_underway director entropy start player limit input awake
  have fit : (new director (director.interpreter entropy) (.new start player) limit
      input).game.stage.Fit := director.launch_fit (new_fit director entropy start player)
  obtain ⟨earlier, there, step, same, -⟩ := run.during underway
  have steps := step_cases there.coherent step
  obtain ⟨fit, marked⟩ := earlier.marked underway fit
    (new_marked director entropy start player limit input awake)
  constructor
  · intro name id started
    cases approach : x.1.approach? with
    | none => exact absurd ((steps.played approach).1 _ started) (by simp [Event.isPlayed])
    | some t =>
      obtain ⟨due, c, late, same⟩ := (steps.approached there fit approach).late approach started
      exact ⟨t, due, c, late, same⟩
  · intro t due c late es console
    obtain ⟨approach, rest, found⟩ := late
    have approached := steps.approached there fit approach
    obtain ⟨-, -, later, opens⟩ := Stage.startAt_of_due? approached.fit.resolved found
    have marks := approached.marked _ (by rw [same]; exact marked)
    rw [same] at marks
    refine ⟨⟨later, ?_⟩, marks, Agenda.le_of_takeDue? (Stage.takeDue?_of_due? found).2,
      director.inTurn_iff approached.since marks⟩
    rw [approached.events, opens, List.cons_append]

/-- A late event is started only by a look, once it is due on the day that the calendar shows. By
then all days up to the last that was announced have been marked, and no others, so the event comes
in its turn exactly if its day has been announced. -/
theorem late_inTurn_iff (director : Director) {entropy : Generator} {start : Date}
    {player : Player} {limit : Nat} {input : List (Option String)} {first : Move}
    {moves : List (Game × Move)} {g : Game} (awake : director.config.sandbox = false)
    (begun : first = new director (director.interpreter entropy) (.new start player) limit input)
    (run : first.game.Runs moves g) :
    (∀ x ∈ moves, ∀ name id, .notice (.lateStarted name id) ∈ x.2.events →
      ∃ t due c, x.1.StartsLate t due c ∧ c.graph.name = name ∧ c.node = id) ∧
    (∀ before x after t due c, moves = before ++ x :: after → x.1.StartsLate t due c →
      let es := first.events ++ happened before ++ t.events
      let console := t.stage.host
      (∃ later, x.2.events = t.events ++
        .notice (.lateStarted c.graph.name c.node) :: (sessionOpening c.category ++ later)) ∧
      milestones es = (start.span console.announced).flatMap director.marks ∧
      due ≤ console.today ∧ (director.InTurn start due es ↔ due ≤ console.announced) ∧
      (console.announced = console.today → director.InTurn start due es)) := by
  constructor
  · intro x mem
    obtain ⟨before, after, rfl⟩ := List.append_of_mem mem
    exact (run.late awake begun).1
  · rintro before x after t due c rfl late es console
    obtain ⟨starts, marked, notLater, turn⟩ := (run.late awake begun).2 t due c late
    refine ⟨starts, marked, notLater, turn, ?_⟩
    intro upToDate
    rw [← upToDate] at notLater
    exact turn.2 notLater

/-! ## Letters -/

/-- A salary that sends a letter after some time and asks whether to leave for as long. -/
def errand (unit : Period) : Graph where
  name := "salary"
  nodes := [⟨"start", .start "salary"⟩, ⟨"plan", .late [⟨unit, 1⟩]⟩,
    ⟨"ask", .message none "Leave?" ["Go", "Stay"] none⟩, ⟨"trip", .timeSkip unit 1⟩,
    ⟨"letter", .message none "A letter arrives" [] none⟩, ⟨"end", .final⟩]
  links := [⟨"start", "start", "plan"⟩, ⟨"plan", "infos 0", "letter"⟩, ⟨"plan", "output", "ask"⟩,
    ⟨"ask", "choices 0", "trip"⟩, ⟨"ask", "choices 1", "end"⟩, ⟨"trip", "output", "end"⟩,
    ⟨"letter", "output", "end"⟩]
  valid := Document.fault?_eq_none (by cases unit <;> decide)

def lastOfJanuary : Date := ⟨739281, by decide, by decide⟩

def errandGame (unit : Period) (limit : Nat) (lines : List String) : Move :=
  let director := (Director.new { Config.default with seed := some 1 } [errand unit]).1
  new director (director.interpreter (.ofSeed 1)) (.new lastOfJanuary .initial) limit
    (lines.map some)

theorem late_of_days (first : Game) (n : Nat) (day announced : Int)
    (more : (played n first).2.step.isOk = true)
    (found : ((played n first).2.approach?.bind fun t => t.stage.due?.map fun x =>
      (x.1.1.day, t.stage.host.announced.day)) = some (day, announced)) :
    ∃ before x t due c, first.Runs (before ++ [x]) x.2.game ∧ x.1.StartsLate t due c ∧
      due.day = day ∧ t.stage.host.announced.day = announced := by
  obtain ⟨m, run⟩ := runs_succ more
  obtain ⟨t, approach, found⟩ := Option.bind_eq_some_iff.1 found
  obtain ⟨⟨⟨due, c⟩, rest⟩, found, same⟩ := Option.map_eq_some_iff.1 found
  obtain ⟨day, announced⟩ := Prod.mk.inj same
  exact ⟨_, (_, m), t, due, c, run, ⟨approach, rest, found⟩, day, announced⟩

/-- If the answer is to stay, the day of the letter is announced before the letter comes. -/
theorem late_inTurn_iff_stay :
    let first := errandGame .day 2 ["1"]
    ∃ before x t due c, first.game.Runs (before ++ [x]) x.2.game ∧ x.1.StartsLate t due c ∧
      first.game.director.InTurn lastOfJanuary due
        (first.events ++ happened before ++ t.events) := by
  intro first
  obtain ⟨before, x, t, due, c, run, late, day, announced⟩ :=
    late_of_days first.game 12 739283 739283 (by decide +kernel) (by decide +kernel)
  obtain ⟨-, turn⟩ := late_inTurn_iff first.game.director rfl rfl run
  obtain ⟨-, -, -, turn, -⟩ := turn before x [] t due c rfl late
  have early : due.day ≤ t.stage.host.announced.day := by omega
  exact ⟨before, x, t, due, c, run, late, turn.2 early⟩

/-- If the answer is to go, the letter comes before all days of the month that was skipped. -/
theorem letter_overtakes :
    let first := errandGame .month 1 ["0", "1", "1"]
    ∃ before x t due c, first.game.Runs (before ++ [x]) x.2.game ∧ x.1.StartsLate t due c ∧
      ¬ first.game.director.InTurn lastOfJanuary due
        (first.events ++ happened before ++ t.events) := by
  intro first
  obtain ⟨before, x, t, due, c, run, late, day, announced⟩ :=
    late_of_days first.game 19 739311 739282 (by decide +kernel) (by decide +kernel)
  obtain ⟨-, turn⟩ := run.late rfl rfl
  obtain ⟨-, -, -, turn⟩ := turn t due c late
  have behind : ¬ due.day ≤ t.stage.host.announced.day := by omega
  exact ⟨before, x, t, due, c, run, late, fun inTurn => behind (turn.1 inTurn)⟩

end Game

end Storyline
