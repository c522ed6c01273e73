import Storyline.Proofs.Director.Days

/-!
# The milestones of a day

What a director makes of a day that is announced while nothing is being played.

* `Director.boundaries_events`: a month that begins is credited and starts the salary scenario.
* `Director.announced_milestones`: what marks a day is done before the look for a late event.
-/

namespace Storyline

/-- Whether an event marks a day: a deduction, a credit, the end that comes with a year, or the start
of a scenario by its name. -/
def Event.isMilestone : Event → Bool
  | .call .deductDaily | .call .creditMonthly => true
  | .notice (.yearPassed _) | .notice (.scenarioStarted ..) | .notice (.scenarioMissing _) => true
  | _ => false

def milestones (es : List Event) : List Event :=
  es.filter Event.isMilestone

theorem milestones_append (es fs : List Event) :
    milestones (es ++ fs) = milestones es ++ milestones fs :=
  List.filter_append ..

theorem Played.milestones {es : List Event} (h : Played es) : milestones es = [] := by
  apply h.filter_eq_nil
  intro e played
  unfold Event.isMilestone
  split <;> first | rfl | contradiction

namespace Director

/-- What begins with a month after its credit: the salary scenario, or the notice that it is
missing. -/
def payday (d : Director) : List Event :=
  (d.library.find? d.config.salaryScenario).elim
    [.notice (.scenarioMissing d.config.salaryScenario)] fun g =>
      (Stage.Request.start g : Stage.Request Console).prologue

theorem payday_cases (d : Director) :
    d.payday = [.notice (.scenarioMissing d.config.salaryScenario)] ∨
      ∃ name category, d.payday =
        .notice (.scenarioStarted name category) :: sessionOpening category := by
  unfold payday
  cases d.library.find? d.config.salaryScenario with
  | none => exact .inl rfl
  | some g =>
    obtain ⟨id, category, first⟩ := g.exists_start
    refine .inr ⟨g.name, category, ?_⟩
    simp only [Option.elim_some, Stage.Request.prologue, first]
    rfl

/-- What marks a date. -/
def marks (d : Director) (date : Date) : List Event :=
  (if date.FirstOfYear then [.notice (.yearPassed date)] else []) ++
    (if date.dayOfMonth = 1 then .call .creditMonthly :: milestones d.payday else []) ++
      [.call .deductDaily]

variable {d : Director} {s : Stage Console}

theorem start_events (idle : s.interpreter.Idle) :
    ∃ rest, Played rest ∧ (d.start d.config.salaryScenario s).2.events = d.payday ++ rest := by
  have inactive : s.interpreter.isActive = false := by simp [Interpreter.isActive, idle.2]
  unfold start payday
  cases d.library.find? d.config.salaryScenario with
  | none => exact ⟨[], by simp [Played], rfl⟩
  | some g =>
    obtain ⟨id, category, first⟩ := g.exists_start
    have entrance := s.entrance?_start first
    rw [inactive] at entrance
    obtain ⟨rest, played, events⟩ := Stage.serve_played (.inl idle) (.start g)
    rw [entrance] at events
    exact ⟨rest, played, events⟩

theorem boundaries_events (idle : s.interpreter.Idle) (day : NewDay) :
    ∃ rest, Played rest ∧ (d.boundaries day s).events =
      (if day.newYear then [.notice (.yearPassed day.date)] else []) ++
        (if day.newMonth then .call .creditMonthly :: d.payday else []) ++ rest := by
  have after : (if day.newYear then yearPassed day.date s else .still s).stage.interpreter.Idle := by
    split <;> exact idle
  have year : (if day.newYear then yearPassed day.date s else .still s).events =
      if day.newYear then [.notice (.yearPassed day.date)] else [] := by
    split <;> rfl
  unfold boundaries
  rw [Turn.events_andThen, year]
  by_cases month : day.newMonth = true
  · obtain ⟨rest, played, events⟩ := start_events (d := d)
      (s := ((if day.newYear then yearPassed day.date s else .still s).stage.call
        .creditMonthly).stage) after
    refine ⟨rest, played, ?_⟩
    rw [if_pos month, if_pos month, monthPassed, Turn.events_andThen, events, List.append_assoc]
    rfl
  · rw [if_neg month, if_neg month]
    exact ⟨[], by simp [Played], by simp⟩

/-- Before the look for a late event a day is marked, with all that begins with it. -/
theorem announced_milestones (idle : s.interpreter.Idle) {day : NewDay}
    (month : day.newMonth = true ↔ day.date.dayOfMonth = 1)
    (year : day.newYear = true ↔ day.date.FirstOfYear) :
    milestones ((d.boundaries day s).andThen (·.call .deductDaily)).events = d.marks day.date := by
  obtain ⟨rest, played, events⟩ := boundaries_events (d := d) idle day
  have month : (day.newMonth = true) = (day.date.dayOfMonth = 1) := propext month
  have year : (day.newYear = true) = day.date.FirstOfYear := propext year
  have last : milestones ((d.boundaries day s).stage.call .deductDaily).events =
      [.call .deductDaily] := rfl
  rw [Turn.events_andThen, events, milestones_append, milestones_append, milestones_append,
    played.milestones, List.append_nil, last]
  simp only [month, year, marks]
  congr 2
  · split <;> rfl
  · split <;> rfl

theorem announced_unstarted (idle : s.interpreter.Idle) (day : NewDay) (name : String)
    (id : NodeId) : .notice (.lateStarted name id) ∉
      ((d.boundaries day s).andThen (·.call .deductDaily)).events := by
  obtain ⟨rest, played, events⟩ := boundaries_events (d := d) idle day
  have unplayed : .notice (.lateStarted name id) ∉ rest := fun mem =>
    absurd (played _ mem) (by simp [Event.isPlayed])
  have unsalaried : .notice (.lateStarted name id) ∉ d.payday := by
    rcases d.payday_cases with missing | ⟨scenario, category, starts⟩
    · simp [missing]
    · simp [starts, sessionOpening]
  rw [Turn.events_andThen, events]
  split <;> split <;> simp [unplayed, unsalaried, Stage.call]

end Director

end Storyline
