import Storyline.Proofs.Interpreter.Settling

/-!
# Untimely requests

A request can come at a wrong moment: a scenario is to start while another one is being played, an
answer is given that nobody waits for, time passes while nothing runs. A host that repeats itself or
is late does no harm, since a run without such requests is the same run.

* `Request.untimely`: whether a request comes at a wrong moment.
* `Stage.serve_untimely`: such a request changes nothing and is not heard.
* `Stage.untimely_unnoticed`: nor does it matter to anything that comes later.
-/

namespace Storyline.Stage

variable {H : Type}

/-- Whether a request comes at a wrong moment. -/
def Request.untimely (i : Interpreter) : Request H → Bool
  | .start _ => i.isActive
  | .startAt c => i.isActive || (c.graph.node? c.node).isNone
  | .choose choice =>
    match i.phase with
    | .paused (.choice _ choices) => 0 < choices && choices ≤ choice
    | _ => true
  | .skipEnded =>
    match i.phase with
    | .paused (.timeAdvance _) => false
    | _ => true
  | .tick _ => i.phase ≠ .running
  | .finish => !i.isActive
  -- These are wanted at all times.
  | .requestEnd | .schedule .. | .takeDue _ | .change _ | .listen _ => false

/-- The requests that are marked come at a wrong moment of the run of all requests. -/
def StruckOut [Host H] : Stage H → List (Request H × Bool) → Prop
  | _, [] => True
  | s, (r, struck) :: rs =>
    (struck = true → r.untimely s.interpreter = true) ∧ StruckOut (s.serve r).stage rs

instance decidableStruckOut [Host H] :
    ∀ (s : Stage H) (rs : List (Request H × Bool)), Decidable (s.StruckOut rs)
  | _, [] => inferInstanceAs (Decidable True)
  | s, (r, struck) :: rs =>
    have := decidableStruckOut (s.serve r).stage rs
    inferInstanceAs (Decidable ((struck = true → r.untimely s.interpreter = true) ∧ _))

/-- The requests that are not marked. -/
def unstruck (rs : List (Request H × Bool)) : List (Request H) :=
  (rs.filter fun r => !r.2).map Prod.fst

/-! ## One request -/

section

variable [Host H]

theorem serve_untimely {s : Stage H} {r : Request H} (untimely : r.untimely s.interpreter = true) :
    (s.serve r).stage = s ∧ heard (s.serve r).events = [] := by
  cases r with
  | start g =>
    have busy : s.interpreter.isActive = true := untimely
    simp [serve, start, busy]
  | startAt c =>
    rw [serve, startAt]
    split
    · exact ⟨rfl, rfl⟩
    · rename_i idle
      have missing : c.graph.node? c.node = none := by simpa [Request.untimely, idle] using untimely
      rw [missing]
      exact ⟨rfl, rfl⟩
  | tick elapsed =>
    have resting : s.interpreter.phase ≠ .running := by simpa [Request.untimely] using untimely
    have still : s.tick elapsed = .still s := by
      unfold tick
      split
      · contradiction
      · rfl
    simp [serve, still]
  | choose choice =>
    rw [serve, choose]
    split
    · rename_i id choices asked
      have beyond : 0 < choices ∧ choices ≤ choice := by
        simpa [Request.untimely, asked] using untimely
      rw [if_pos beyond]
      exact ⟨rfl, rfl⟩
    · exact ⟨rfl, rfl⟩
  | skipEnded =>
    rw [serve, skipEnded]
    split
    · rename_i id asked
      simp [Request.untimely, asked] at untimely
    · exact ⟨rfl, rfl⟩
  | finish =>
    have idle : s.interpreter.session = none := by
      simpa [Request.untimely, Interpreter.isActive] using untimely
    simp [serve, finish_idle idle]
  | _ => contradiction

end

theorem continueThrough_unpaused (s : Stage H) (id : NodeId) (outlet : String)
    (suspension : Suspension) :
    (s.continueThrough id outlet).interpreter.phase ≠ .paused suspension := by
  unfold continueThrough modify
  dsimp only
  split <;> exact nofun

/-- A choice that comes in time is taken. The message is hidden, and the host is called for nothing
else. -/
theorem choose_timely [Host H] {s : Stage H} {choice : Nat}
    (timely : (Request.choose choice : Request H).untimely s.interpreter = false) :
    heard (s.choose choice).events = [.call .hide] ∧
      ∀ suspension, (s.choose choice).stage.interpreter.phase ≠ .paused suspension := by
  unfold Request.untimely at timely
  dsimp only at timely
  split at timely
  · rename_i id choices asked
    have known : ¬ (0 < choices ∧ choices ≤ choice) := by simpa using timely
    have chosen : s.choose choice = (s.call .hide).andThen fun s => .still
        (s.continueThrough id (if 0 < choices then choiceOutlet choice else usualOutlet)) := by
      simp only [choose, asked, known, if_false]
    rw [chosen]
    exact ⟨rfl, continueThrough_unpaused _ _ _⟩
  · contradiction

/-- The end of a time skip that comes in time is taken, and the host does not hear of it. -/
theorem skipEnded_timely {s : Stage H}
    (timely : (Request.skipEnded : Request H).untimely s.interpreter = false) :
    heard s.skipEnded.events = [] ∧ s.skipEnded.stage.host = s.host ∧
      ∀ suspension, s.skipEnded.stage.interpreter.phase ≠ .paused suspension := by
  unfold Request.untimely at timely
  dsimp only at timely
  split at timely
  · rename_i id asked
    have arrived : s.skipEnded = .still (s.continueThrough id usualOutlet) := by
      simp only [skipEnded, asked]
    rw [arrived]
    exact ⟨rfl, rfl, continueThrough_unpaused _ _ _⟩
  · contradiction

/-! ## Runs -/

variable [Host H]

theorem StruckOut.take {s : Stage H} {rs : List (Request H × Bool)} (h : s.StruckOut rs) (n : Nat) :
    s.StruckOut (rs.take n) := by
  induction n generalizing s rs with
  | zero => trivial
  | succ n ih =>
    cases rs with
    | nil => trivial
    | cons r rs => exact ⟨h.1, ih h.2⟩

/-- A run without requests that are struck out comes to the same end and is heard alike. -/
theorem serveAll_unstruck {s : Stage H} {rs : List (Request H × Bool)} (h : s.StruckOut rs) :
    (s.serveAll (unstruck rs)).stage = (s.serveAll (rs.map Prod.fst)).stage ∧
      heard (s.serveAll (unstruck rs)).events = heard (s.serveAll (rs.map Prod.fst)).events := by
  induction rs generalizing s with
  | nil => exact ⟨rfl, rfl⟩
  | cons entry rs ih =>
    obtain ⟨r, struck⟩ := entry
    obtain ⟨untimely, later⟩ := h
    obtain ⟨stage, events⟩ := ih later
    rw [List.map_cons, serveAll, Turn.stage_andThen, Turn.events_andThen, heard_append]
    cases struck with
    | true =>
      -- The shorter run goes on from the stage before the request, which is the one after it.
      have without : unstruck ((r, true) :: rs) = unstruck rs := rfl
      obtain ⟨same, silent⟩ := serve_untimely (untimely rfl)
      rw [same] at stage events ⊢
      rw [without, silent, List.nil_append]
      exact ⟨stage, events⟩
    | false =>
      have both : unstruck ((r, false) :: rs) = r :: unstruck rs := rfl
      rw [both, serveAll, Turn.stage_andThen, Turn.events_andThen, heard_append, events]
      exact ⟨stage, rfl⟩

/-- Any requests that come at a wrong moment can be left out of a run: after every part of the run
interpreter and host are what they would have been, and the same was heard. An answer that comes in
time is taken, a choice with one call to the host and the end of a time skip with none. -/
theorem untimely_unnoticed (s : Stage H) :
    (∀ rs, s.StruckOut rs → ∀ n,
      let whole := s.serveAll ((rs.take n).map Prod.fst)
      let rest := s.serveAll (unstruck (rs.take n))
      rest.stage = whole.stage ∧ heard rest.events = heard whole.events) ∧
    (∀ choice, (Request.choose choice : Request H).untimely s.interpreter = false →
      heard (s.choose choice).events = [.call .hide] ∧
        ∀ suspension, (s.choose choice).stage.interpreter.phase ≠ .paused suspension) ∧
    ((Request.skipEnded : Request H).untimely s.interpreter = false →
      heard s.skipEnded.events = [] ∧ s.skipEnded.stage.host = s.host ∧
        ∀ suspension, s.skipEnded.stage.interpreter.phase ≠ .paused suspension) := by
  refine ⟨fun rs struck n => ?_, fun choice timely => ?_, fun timely => ?_⟩
  · exact serveAll_unstruck (struck.take n)
  · exact choose_timely timely
  · exact skipEnded_timely timely

/-- A departure among requests of all kinds that come at a wrong moment. -/
theorem untimely_unnoticed_departure :
    let today : Date := ⟨738886, by decide, by decide⟩
    let s : Stage Recorder := fresh ⟨false, 5, 8, some 7⟩ (.ofSeed 7) ⟨today, #[], false⟩
    let rs : List (Request Recorder × Bool) :=
      [(.choose 0, true), (.start departure, false), (.start greeting, true), (.choose 1, true),
        (.tick 9, true), (.skipEnded, true), (.choose 0, false), (.choose 0, true),
        (.tick 5, false), (.startAt ⟨greeting, "hello", "daily"⟩, true), (.skipEnded, false),
        (.skipEnded, true), (.tick 5, false), (.finish, true),
        (.startAt ⟨departure, "nowhere", "daily"⟩, true)]
    s.StruckOut rs ∧
      unstruck rs = [.start departure, .choose 0, .tick 5, .skipEnded, .tick 5] ∧
      (s.serveAll (unstruck rs)).stage = (s.serveAll (rs.map Prod.fst)).stage ∧
      heard (s.serveAll (unstruck rs)).events = heard (s.serveAll (rs.map Prod.fst)).events := by
  intro today s rs
  have struck : s.StruckOut rs := by decide +kernel
  obtain ⟨unnoticed, -, -⟩ := untimely_unnoticed s
  exact ⟨struck, rfl, unnoticed rs struck rs.length⟩

end Storyline.Stage
