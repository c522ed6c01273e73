import Storyline.Director
import Storyline.Proofs.Interpreter.HostCalls

/-!
# Turns of a director

What a director does is requests to its interpreter and calls to its host.

* `Director.startDue_cases`, `Director.start_cases`: what starts, if anything.
* `Director.announce_eq`: a day is announced after the boundaries that it begins with.
* `Director.faithful_announce`, `Director.faithful_tick`: the host changes by calls alone.
-/

namespace Storyline

namespace Director

variable {H : Type} [Host H]

/-- What a day begins with: its year and its month. -/
def boundaries (d : Director) (day : NewDay) (s : Stage H) : Turn H :=
  (if day.newYear then yearPassed day.date s else .still s).andThen fun s =>
    if day.newMonth then d.monthPassed s else .still s

theorem announce_eq (d : Director) (day : NewDay) (s : Stage H) :
    d.announce day s = (d.boundaries day s).andThen dayPassed := rfl

theorem launch_awake {d : Director} (awake : d.config.sandbox = false) (s : Stage H) :
    d.launch s = s.call .startClock := by
  simp [launch, awake]

theorem startDue_cases (s : Stage H) :
    startDue s = .still s ∨
      s.interpreter.isActive = false ∧ ∃ due c rest,
        s.interpreter.agenda.takeDue? (Host.today s.host) = some ((due, c), rest) ∧
        startDue s = (s.modify fun i => { i with agenda := rest }).serve (.startAt c) := by
  unfold startDue
  split
  · exact .inl rfl
  · rename_i inactive
    split
    · exact .inl rfl
    · rename_i due c rest taken
      exact .inr ⟨by simpa using inactive, due, c, rest, taken, rfl⟩

theorem start_cases (d : Director) (name : String) (s : Stage H) :
    (d.start name s).2 = s.tell (.scenarioMissing name) ∨
      ∃ g, (d.start name s).2 = s.serve (.start g) := by
  unfold start
  split
  · exact .inl rfl
  · exact .inr ⟨_, rfl⟩

theorem faithful_startDue (s : Stage H) : s.Faithful (startDue s) := by
  rcases startDue_cases s with still | ⟨-, due, c, rest, -, starts⟩
  · rw [still]
    exact s.faithful_still
  · rw [starts]
    exact Stage.Faithful.of_modify (Stage.faithful_startAt _ c)

theorem faithful_start (d : Director) (name : String) (s : Stage H) :
    s.Faithful (d.start name s).2 := by
  rcases d.start_cases name s with missing | ⟨g, starts⟩
  · rw [missing]
    exact s.faithful_tell _
  · rw [starts]
    exact s.faithful_start g

theorem faithful_monthPassed (d : Director) (s : Stage H) : s.Faithful (d.monthPassed s) :=
  (s.faithful_call .creditMonthly).andThen (d.faithful_start _ _)

theorem faithful_boundaries (d : Director) (day : NewDay) (s : Stage H) :
    s.Faithful (d.boundaries day s) := by
  have year : s.Faithful (if day.newYear then yearPassed day.date s else .still s) := by
    split
    · exact (s.faithful_tell _).andThen rfl
    · exact s.faithful_still
  have month (s : Stage H) :
      s.Faithful (if day.newMonth then d.monthPassed s else .still s) := by
    split
    · exact d.faithful_monthPassed s
    · exact s.faithful_still
  exact year.andThen (month _)

theorem faithful_announce (d : Director) (day : NewDay) (s : Stage H) :
    s.Faithful (d.announce day s) := by
  rw [announce_eq]
  exact (d.faithful_boundaries day s).andThen
    ((Stage.faithful_call _ _).andThen (faithful_startDue _))

theorem faithful_tick (elapsed : Nat) (s : Stage H) : s.Faithful (tick elapsed s) :=
  (s.faithful_tick elapsed).andThen (faithful_startDue _)

theorem faithful_launch (d : Director) (s : Stage H) : s.Faithful (d.launch s) := by
  unfold launch
  split
  · split
    · exact d.faithful_start _ s
    · exact s.faithful_tell _
  · exact s.faithful_call _

end Director

end Storyline
