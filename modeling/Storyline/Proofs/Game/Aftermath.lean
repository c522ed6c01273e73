import Storyline.Proofs.Game.Final
import Storyline.Proofs.Game.Move

/-!
# Coming back from the end of a game

A session ends the game deep inside an operation of the director. Then control comes back to the
director, which may still deduct a day and starts a late event that is due.

* `Stage.Fit`: what holds of the stages of a game.
* `Turn.Rests`: nothing is left to do when control comes back.
* `Turn.back_over`: exactly then the end of the game is final.
-/

namespace Storyline

/-! ## Stages of a game -/

/-- A stage at which the game is not both over and to end. -/
structure Stage.Fit (s : Stage Console) : Prop where
  coherent : s.interpreter.Coherent
  resolved : s.interpreter.agenda.Resolved
  unasked : s.host.gameOver = true → s.interpreter.endRequested = false

namespace Stage

theorem gameOver_mem_heard {es : List Event} :
    .call .gameOver ∈ heard es ↔ .call .gameOver ∈ es := by
  simp [heard, Event.isHeard]

theorem Fit.of_ends {s : Stage Console} {t : Turn Console} (fit : s.Fit) (ends : s.Ends t)
    (faithful : s.Faithful t) (coherent : t.stage.interpreter.Coherent)
    (resolved : t.stage.interpreter.agenda.Resolved) : t.stage.Fit where
  coherent := coherent
  resolved := resolved
  unasked := by
    rw [faithful.gameOver]
    intro ended
    cases ends with
    | closed asked last => exact last.flag
    | calm silent flag =>
      rw [gameOver_mem_heard] at silent
      simp only [silent, decide_false, Bool.or_false] at ended
      exact flag (fit.unasked ended)

theorem serve_fit {s : Stage Console} (fit : s.Fit) {r : Request Console} (plain : r.Plain) :
    (s.serve r).stage.Fit :=
  fit.of_ends (serve_ends fit.coherent plain.inert) (serve_faithful plain.own)
    (serves fit.coherent r).coherent
    (serve_resolved fit.coherent (plain.rearrange _) fit.resolved)

theorem Fit.taken {s : Stage Console} (fit : s.Fit) {today : Date} {entry : Date × Continuation}
    {rest : Agenda} (taken : s.interpreter.agenda.takeDue? today = some (entry, rest)) :
    (s.modify fun i => { i with agenda := rest }).Fit where
  coherent := by
    rcases fit.coherent with idle | ⟨g, p, plays⟩
    · exact .inl idle
    · exact .inr ⟨g, p, plays.congr rfl rfl⟩
  resolved := by
    intro other mem
    apply fit.resolved
    rw [Agenda.takeDue?_toList taken]
    exact List.mem_cons_of_mem _ mem
  unasked := fit.unasked

theorem startDue_fit {s : Stage Console} (fit : s.Fit) : (Director.startDue s).stage.Fit := by
  rcases Director.startDue_cases s with still | ⟨-, due, c, rest, taken, starts⟩
  · rw [still]
    exact fit
  · rw [starts]
    exact serve_fit (fit.taken taken) trivial

theorem startDue_ends {s : Stage Console} (fit : s.Fit) : s.Ends (Director.startDue s) := by
  rcases Director.startDue_cases s with still | ⟨-, due, c, rest, taken, starts⟩
  · rw [still]
    exact s.ends_still
  · rw [starts]
    cases serve_ends (fit.taken taken).coherent (r := .startAt c) rfl with
    | calm silent flag => exact .calm silent flag
    | closed asked ended => exact .closed asked ended

theorem startDue_still {s : Stage Console}
    (none : s.interpreter.agenda.takeDue? s.host.today = none) :
    Director.startDue s = .still s := by
  rcases Director.startDue_cases s with still | ⟨-, due, c, rest, taken, -⟩
  · exact still
  · have taken : s.interpreter.agenda.takeDue? s.host.today = some ((due, c), rest) := taken
    rw [none] at taken
    contradiction

theorem startDue_started {s : Stage Console} (fit : s.Fit) (idle : s.interpreter.Idle)
    {entry : Date × Continuation} {rest : Agenda}
    (taken : s.interpreter.agenda.takeDue? s.host.today = some (entry, rest)) :
    ∃ category, .sent (.started category) ∈ heard (Director.startDue s).events := by
  obtain ⟨due, c⟩ := entry
  have mem : (due, c) ∈ s.interpreter.agenda.toList := by
    rw [Agenda.takeDue?_toList taken]
    exact List.mem_cons_self
  obtain ⟨node, found⟩ := fit.resolved _ mem
  have starts : Director.startDue s =
      (s.modify fun i => { i with agenda := rest }).serve (.startAt c) := by
    have inactive : s.interpreter.isActive = false := by simp [Interpreter.isActive, idle.2]
    have taken : s.interpreter.agenda.takeDue? (Host.today s.host) = some ((due, c), rest) := taken
    simp only [Director.startDue, inactive, taken]
    rfl
  obtain ⟨-, -, events⟩ :=
    serve_begins (s := s.modify fun i => { i with agenda := rest }) idle (.startAt found)
  refine ⟨c.category, ?_⟩
  rw [starts, events]
  simp [sessionOpening]

end Stage

/-! ## Coming back from the end of the game -/

def Stage.callAll (s : Stage Console) (cs : List Call) : Turn Console :=
  ⟨{ s with host := Host.performAll s.host cs }, cs.map .call⟩

theorem Stage.callAll_fit {s : Stage Console} (fit : s.Fit) {cs : List Call}
    (quiet : .gameOver ∉ cs) : (s.callAll cs).stage.Fit where
  coherent := fit.coherent
  resolved := fit.resolved
  unasked := by
    have same : (s.callAll cs).stage.host.gameOver = s.host.gameOver := by
      simp [callAll, Console.performAll_gameOver, quiet]
    rw [same]
    exact fit.unasked

namespace Turn

/-- A turn after which a director makes some calls and starts what is due. -/
def back (t : Turn Console) (cs : List Call) : Turn Console :=
  (t.andThen (·.callAll cs)).andThen Director.startDue

/-- If the turn has ended the game, nothing is due then and the calls leave the player alone. -/
def Rests (t : Turn Console) (cs : List Call) : Prop :=
  .call .gameOver ∈ t.events →
    t.stage.interpreter.agenda.takeDue? t.stage.host.today = none ∧
      t.stage.host.player.Untouched (cs.map .call)

variable {t : Turn Console} {cs : List Call}

/-- A turn that ends the game is harmless from there on exactly if nothing is left to do. -/
theorem back_of_over (fit : t.stage.Fit) (ended : t.Over) (quiet : .gameOver ∉ cs)
    (today : (Host.performAll t.stage.host cs).today = t.stage.host.today) {p : Player}
    (player : t.stage.host.player = p.after t.events) :
    ∃ before after, heard (t.back cs).events = before ++ .call .gameOver :: after ∧
      .call .gameOver ∉ before ∧ .call .gameOver ∉ after ∧
      ((p.after before).Harmless after ↔ t.Rests cs) ∧
      (t.Rests cs → (t.back cs).stage.interpreter.Idle) := by
  obtain ⟨before, events, first⟩ := ended.events
  have fit' := Stage.callAll_fit fit quiet
  have idle : (t.stage.callAll cs).stage.interpreter.Idle := ended.idle
  have calls : heard (cs.map Event.call) = cs.map .call := heard_calls cs
  have mem : .call .gameOver ∈ t.events := by
    rw [← Stage.gameOver_mem_heard, events]
    simp
  have same : p.after before = t.stage.host.player := by
    rw [player, ← Player.after_heard p t.events, events, Player.after_append]
    rfl
  have later := ((Stage.startDue_ends fit').unasked ended.flag).1
  refine ⟨before, .call .reset :: cs.map .call ++
    heard (Director.startDue (t.stage.callAll cs).stage).events, ?_, first, ?_, ?_, ?_⟩
  · simp [back, Stage.callAll, events, calls]
  · simp [quiet, later]
  · rw [same]
    constructor
    · rintro ⟨unstarted, untouched⟩ -
      constructor
      · cases due : t.stage.interpreter.agenda.takeDue? t.stage.host.today with
        | none => rfl
        | some result =>
          obtain ⟨entry, rest⟩ := result
          rw [← today] at due
          obtain ⟨category, started⟩ := Stage.startDue_started fit' idle due
          exact absurd (List.mem_append_right _ started) (unstarted category)
      · exact (Player.untouched_cons.1 untouched.initial).2
    · intro rests
      obtain ⟨none, untouched⟩ := rests mem
      rw [← today] at none
      rw [Stage.startDue_still none, events_still, heard_nil, List.append_nil]
      exact ⟨by simp, Player.untouched_cons.2 ⟨rfl, untouched⟩⟩
  · intro rests
    obtain ⟨none, -⟩ := rests mem
    rw [← today] at none
    have still : Director.startDue (t.stage.callAll cs).stage = .still (t.stage.callAll cs).stage :=
      Stage.startDue_still none
    rw [back, stage_andThen, stage_andThen, still]
    exact idle

/-- Either the turn itself ends the game, or what the director does after it. -/
theorem back_over (fit : t.stage.Fit) (ended : .call .gameOver ∈ heard t.events → t.Over)
    (quiet : .gameOver ∉ cs)
    (today : (Host.performAll t.stage.host cs).today = t.stage.host.today) {p : Player}
    (player : t.stage.host.player = p.after t.events)
    (mem : .call .gameOver ∈ heard (t.back cs).events) :
    ∃ before after, heard (t.back cs).events = before ++ .call .gameOver :: after ∧
      .call .gameOver ∉ before ∧ .call .gameOver ∉ after ∧
      ((p.after before).Harmless after ↔ t.Rests cs) ∧
      (t.Rests cs → (t.back cs).stage.interpreter.Idle) := by
  by_cases early : .call .gameOver ∈ heard t.events
  · exact back_of_over fit (ended early) quiet today player
  · have fit' := Stage.callAll_fit fit quiet
    have calls : heard (cs.map Event.call) = cs.map .call := heard_calls cs
    have rests : t.Rests cs := by
      intro now
      rw [← Stage.gameOver_mem_heard] at now
      exact absurd now early
    have late : .call .gameOver ∈
        heard (Director.startDue (t.stage.callAll cs).stage).events := by
      simpa [back, Stage.callAll, calls, early, quiet] using mem
    have last := ((Stage.startDue_ends fit').over_of_mem late).2
    obtain ⟨before, events, first⟩ := last.events
    refine ⟨heard t.events ++ cs.map .call ++ before, [.call .reset], ?_, ?_, by simp, ?_, ?_⟩
    · rw [back, events_andThen, events_andThen, heard_append, heard_append, stage_andThen, events,
        Stage.callAll, calls]
      simp
    · simp [early, quiet, first]
    · exact ⟨fun _ => rests, fun _ => Player.harmless_reset _⟩
    · exact fun _ => last.idle

end Turn

/-! ## The boundaries of a day -/

namespace Director

theorem start_fit (d : Director) (name : String) {s : Stage Console} (fit : s.Fit) :
    (d.start name s).2.stage.Fit := by
  rcases d.start_cases name s with missing | ⟨g, starts⟩
  · rw [missing]
    exact fit
  · rw [starts]
    exact Stage.serve_fit fit trivial

theorem start_ends (d : Director) (name : String) {s : Stage Console} (fit : s.Fit) :
    s.Ends (d.start name s).2 := by
  rcases d.start_cases name s with missing | ⟨g, starts⟩
  · rw [missing]
    exact .calm (by simp [Stage.tell]) (fun flag => flag)
  · rw [starts]
    exact Stage.serve_ends fit.coherent rfl

theorem launch_fit (d : Director) {s : Stage Console} (fit : s.Fit) : (d.launch s).stage.Fit := by
  unfold launch
  split
  · split
    · exact d.start_fit _ fit
    · exact fit
  · have quiet : .gameOver ∉ [Call.startClock] := by simp
    exact Stage.callAll_fit fit quiet

theorem launch_silent (d : Director) {s : Stage Console} (fit : s.Fit)
    (unasked : s.interpreter.endRequested = false) :
    .call .gameOver ∉ heard (d.launch s).events := by
  unfold launch
  split
  · split
    · exact ((d.start_ends _ fit).unasked unasked).1
    · simp [Stage.tell]
  · simp [Stage.call]

theorem monthPassed_fit (d : Director) {s : Stage Console} (fit : s.Fit) :
    (d.monthPassed s).stage.Fit := by
  have credited : (s.callAll [.creditMonthly]).stage.Fit := Stage.callAll_fit fit (by simp)
  exact d.start_fit _ credited

theorem monthPassed_over (d : Director) {s : Stage Console} (fit : s.Fit)
    (mem : .call .gameOver ∈ heard (d.monthPassed s).events) : (d.monthPassed s).Over := by
  have credited : (s.callAll [.creditMonthly]).stage.Fit := Stage.callAll_fit fit (by simp)
  have silent : .call .gameOver ∉ heard (s.call .creditMonthly).events := by simp [Stage.call]
  have late : .call .gameOver ∈
      heard (d.start d.config.salaryScenario (s.call .creditMonthly).stage).2.events := by
    rw [monthPassed, Turn.events_andThen, heard_append] at mem
    exact (List.mem_append.1 mem).resolve_left silent
  exact ((d.start_ends _ credited).over_of_mem late).2.after silent

theorem year_fit (day : NewDay) {s : Stage Console} (fit : s.Fit)
    (alive : s.host.gameOver = false) :
    (if day.newYear then yearPassed day.date s else .still s).stage.Fit := by
  split
  · refine ⟨?_, fit.resolved, ?_⟩
    · rcases fit.coherent with idle | ⟨g, p, plays⟩
      · exact .inl idle
      · exact .inr ⟨g, p, plays.congr rfl rfl⟩
    · intro ended
      have ended : s.host.gameOver = true := ended
      rw [alive] at ended
      contradiction
  · exact fit

theorem boundaries_fit (d : Director) (day : NewDay) {s : Stage Console} (fit : s.Fit)
    (alive : s.host.gameOver = false) : (d.boundaries day s).stage.Fit := by
  have year := year_fit day fit alive
  unfold boundaries
  rw [Turn.stage_andThen]
  split
  · exact d.monthPassed_fit year
  · exact year

theorem boundaries_over (d : Director) (day : NewDay) {s : Stage Console} (fit : s.Fit)
    (alive : s.host.gameOver = false)
    (mem : .call .gameOver ∈ heard (d.boundaries day s).events) : (d.boundaries day s).Over := by
  have year := year_fit day fit alive
  have silent : .call .gameOver ∉
      heard (if day.newYear then yearPassed day.date s else .still s).events := by
    split <;> simp [yearPassed, Stage.tell]
  unfold boundaries at mem ⊢
  rw [Turn.events_andThen, heard_append] at mem
  have late := (List.mem_append.1 mem).resolve_left silent
  split at late
  · rename_i month
    have ended := (d.monthPassed_over year late).after silent
    simpa [Turn.andThen, month] using ended
  · simp at late

end Director

end Storyline
