import Mathlib.Algebra.Ring.Nat
import Storyline.Proofs.Interpreter.SessionWalk

/-!
# Settling

After an answer a session settles for a while. Ticks shorten the time that is left, and the first one
that uses it up lets the session go on, however the time is cut into ticks.

* `Stage.Moves`: how a session goes on.
* `Stage.walk_moves`: a walk of at least one step is one of these.
* `Stage.settling_exact`: ticks, and the answers after which a session settles.
-/

namespace Storyline

/-- The session goes on behind an outlet, once it has settled. -/
def Interpreter.resumed (i : Interpreter) (session : Session) (node : NodeId) (outlet : String) :
    Interpreter :=
  { i with
    phase := .running
    session := some { session with
      current := (session.graph.next? node outlet).map Node.id
      settle := some i.settings.resumeDelay } }

def Session.settling (session : Session) (left : Option Nat) : Session :=
  { session with settle := left }

namespace Stage

variable {H : Type}

/-- The same stage with another settling time left. -/
def settling (s : Stage H) (left : Option Nat) : Stage H :=
  s.modify fun i => { i with session := i.session.map fun session => session.settling left }

theorem settling_settling (s : Stage H) (left left' : Option Nat) :
    (s.settling left).settling left' = s.settling left' := by
  simp [settling, modify, Session.settling, Function.comp_def]

theorem settling_session {s : Stage H} {session : Session}
    (playing : s.interpreter.session = some session) (left : Option Nat) :
    (s.settling left).interpreter.session = some (session.settling left) := by
  simp [settling, modify, playing]

theorem settling_self {s : Stage H} {session : Session}
    (playing : s.interpreter.session = some session) : s.settling session.settle = s := by
  obtain ⟨⟨settings, phase, _, flag, agenda, notifier, generator⟩, host⟩ := s
  obtain rfl := playing
  rfl

variable [Host H]

/-! ## Going on -/

/-- The session visits the node at which it stands before anything else, or ends if it stands at
none. -/
inductive Moves (s : Stage H) (session : Session) (legs : List Leg) (t : Turn H) : Prop where
  | visits {v : Visit} {rest : List Leg} {n : Nat}
      (current : s.interpreter.currentNode? = some v.node)
      (category : v.category = session.category) (today : v.today = Host.today s.host)
      (legs : legs = .visit v :: rest) (turn : t = (s.visit session v).andThen (walk n))
  | ends (nowhere : s.interpreter.currentNode? = none) (legs : legs = [])
      (idle : t.stage.interpreter.Idle)
      (events : heard t.events =
        sessionEnding s.interpreter.settings.sandbox s.interpreter.endRequested session.category)

theorem walk_moves {s : Stage H} {session : Session} (running : s.interpreter.phase = .running)
    (playing : s.interpreter.session = some session) (n : Nat) :
    s.Moves session (s.walkLegs (n + 1)) (s.walk (n + 1)) := by
  rw [walk_succ, walkLegs]
  cases s.pass_passes with
  | rests resting =>
    rcases resting with paused | none
    · exact absurd running paused
    · simp [playing] at none
  | ends playing' nowhere visitless stage events =>
    obtain rfl := Option.some.inj (playing.symm.trans playing')
    have idle : s.pass.stage.interpreter.Idle := by
      simp [Interpreter.Idle, stage, finish_interpreter playing]
    rw [passLegs_of_visitless visitless, walkLegs_of_idle idle,
      Turn.andThen_congr (walk_of_idle idle.2 n), Turn.andThen_still]
    exact .ends nowhere rfl idle (events.trans (finish_heard playing))
  | visits playing' current visit turn =>
    obtain rfl := Option.some.inj (playing.symm.trans playing')
    obtain ⟨_, playing', -, category, today⟩ := visit?_eq_some visit
    obtain rfl := Option.some.inj (playing.symm.trans playing')
    rw [passLegs_of_visit? visit, turn]
    exact .visits current category today rfl rfl

/-! ## Ticks -/

theorem tick_settling {s : Stage H} {session : Session} (running : s.interpreter.phase = .running)
    (playing : s.interpreter.session = some session) (elapsed : Nat) :
    s.tick elapsed =
      if elapsed < session.settle.getD 0 then
        .still (s.settling (some (session.settle.getD 0 - elapsed)))
      else (s.settling none).proceed := by
  cases settle : session.settle with
  | none =>
    have same : s.settling none = s := by rw [← settle, settling_self playing]
    simp [tick, running, playing, settle, same]
  | some left =>
    simp [tick, running, playing, settle, settling, modify, Session.settling]

theorem legs_settling {s : Stage H} {session : Session} (running : s.interpreter.phase = .running)
    (playing : s.interpreter.session = some session) (elapsed : Nat) :
    s.legs (.tick elapsed) =
      if elapsed < session.settle.getD 0 then []
      else (s.settling none).walkLegs s.interpreter.settings.maxSteps := by
  cases settle : session.settle with
  | none =>
    have same : s.settling none = s := by rw [← settle, settling_self playing]
    simp [legs, entrance?, settled?, running, playing, settle, same]
  | some left =>
    by_cases early : elapsed < left
    · simp [legs, entrance?, settled?, running, playing, settle, early]
    · simp [legs, entrance?, settled?, running, playing, settle, early, settling, modify,
        Session.settling]

/-- The tick that uses up the settling time. -/
theorem tick_moves {s : Stage H} {session : Session} (running : s.interpreter.phase = .running)
    (playing : s.interpreter.session = some session) (budget : 0 < s.interpreter.settings.maxSteps)
    {elapsed : Nat} (due : session.settle.getD 0 ≤ elapsed) :
    (s.settling none).Moves (session.settling none) (s.legs (.tick elapsed)) (s.tick elapsed) := by
  obtain ⟨n, steps⟩ := Nat.exists_eq_succ_of_ne_zero (Nat.ne_of_gt budget)
  have proceeds : (s.settling none).proceed = (s.settling none).walk (n + 1) :=
    congrArg (walk · (s.settling none)) steps
  rw [tick_settling running playing, legs_settling running playing, if_neg (Nat.not_lt.2 due),
    if_neg (Nat.not_lt.2 due), proceeds, steps]
  exact walk_moves (s := s.settling none) running (settling_session playing none) n

theorem ticks_early {s : Stage H} {session : Session} (running : s.interpreter.phase = .running)
    (playing : s.interpreter.session = some session) {es : List Nat}
    (early : es.sum < session.settle.getD 0) :
    s.serveAll (es.map .tick) =
        .still (s.settling (some (session.settle.getD 0 - es.sum))) ∧
      s.runLegs (es.map .tick) = [] := by
  induction es generalizing s session with
  | nil =>
    obtain ⟨left, settle⟩ : ∃ left, session.settle = some left := by
      cases settle : session.settle with
      | none => simp [settle] at early
      | some left => exact ⟨left, rfl⟩
    have same : s.settling (some left) = s := by rw [← settle, settling_self playing]
    simp [serveAll, runLegs, settle, same]
  | cons e es ih =>
    rw [List.sum_cons] at early
    -- The other ticks find the time that the first one has left.
    have first : e < session.settle.getD 0 := by omega
    have ticked : s.tick e = .still (s.settling (some (session.settle.getD 0 - e))) := by
      rw [tick_settling running playing, if_pos first]
    have silent : s.legs (.tick e) = [] := by
      rw [legs_settling running playing, if_pos first]
    have rest : es.sum < session.settle.getD 0 - e := by omega
    obtain ⟨served, walked⟩ := ih (s := s.settling (some (session.settle.getD 0 - e))) running
      (settling_session playing _) rest
    constructor
    · simp only [List.map_cons, serveAll, serve, ticked, Turn.still_andThen, served,
        settling_settling, Session.settling, Option.getD_some, List.sum_cons, Nat.sub_sub]
    · simp only [List.map_cons, runLegs, serve, ticked, silent, Turn.stage_still, walked,
        List.append_nil]

/-- Ticks of which only the last one may use up the settling time are as good as one. -/
theorem ticks_joined {s : Stage H} {session : Session} (running : s.interpreter.phase = .running)
    (playing : s.interpreter.session = some session) {es : List Nat}
    (early : es = [] ∨ es.sum < session.settle.getD 0) (e : Nat) :
    s.serveAll ((es ++ [e]).map .tick) = s.tick (es.sum + e) ∧
      s.runLegs ((es ++ [e]).map .tick) = s.legs (.tick (es.sum + e)) := by
  rcases early with rfl | early
  · simp [serveAll, runLegs, serve]
  · let left := session.settle.getD 0 - es.sum
    let t := s.settling (some left)
    have running' : t.interpreter.phase = .running := running
    have playing' : t.interpreter.session = some (session.settling (some left)) :=
      settling_session playing _
    obtain ⟨served, walked⟩ := ticks_early running playing early
    have one : t.tick e = s.tick (es.sum + e) ∧ t.legs (.tick e) = s.legs (.tick (es.sum + e)) := by
      have same : e < left ↔ es.sum + e < session.settle.getD 0 := by omega
      have rest : left - e = session.settle.getD 0 - (es.sum + e) := Nat.sub_sub ..
      rw [tick_settling running playing, legs_settling running playing,
        tick_settling running' playing', legs_settling running' playing']
      simp only [Session.settling, Option.getD_some, t, settling_settling, same, rest, true_and]
      rfl
    rw [List.map_append, serveAll_append, runLegs_append, served, walked]
    simpa [serveAll, runLegs, serve] using one

/-! ## Answers -/

theorem choose_resumes {s : Stage H} {session : Session}
    (playing : s.interpreter.session = some session) {node : NodeId} {choices choice : Nat}
    (waits : s.interpreter.phase = .paused (.choice node choices))
    (known : choices = 0 ∨ choice < choices) :
    s.choose choice =
      ⟨⟨s.interpreter.resumed session node
          (if 0 < choices then choiceOutlet choice else usualOutlet),
        Host.perform .hide s.host⟩, [.call .hide]⟩ := by
  have accepted : ¬ (0 < choices ∧ choices ≤ choice) := by omega
  simp only [choose, waits, accepted, if_false, call, Turn.andThen, Turn.still, continueThrough,
    modify, playing, Interpreter.resumed, List.append_nil]

omit [Host H] in
theorem skipEnded_resumes {s : Stage H} {session : Session}
    (playing : s.interpreter.session = some session) {node : NodeId}
    (waits : s.interpreter.phase = .paused (.timeAdvance node)) :
    s.skipEnded = .still ⟨s.interpreter.resumed session node usualOutlet, s.host⟩ := by
  simp only [skipEnded, waits, continueThrough, modify, playing, Interpreter.resumed]

/-- Ticks that do not use up the settling time only shorten it. The one that does lets the session
move, and together they are as good as one tick. An answer that is accepted runs no node: the
session settles for the whole delay, and even without a delay it goes on at a tick. -/
theorem settling_exact {s : Stage H} {session : Session}
    (playing : s.interpreter.session = some session) :
    (s.interpreter.phase = .running → 0 < s.interpreter.settings.maxSteps →
      let left := session.settle.getD 0
      ∀ es : List Nat,
        (es.sum < left → s.serveAll (es.map .tick) = .still (s.settling (some (left - es.sum)))) ∧
        ∀ e, es = [] ∨ es.sum < left →
          let ticks : List (Request H) := (es ++ [e]).map .tick
          s.serveAll ticks = s.tick (es.sum + e) ∧
            (left ≤ es.sum + e →
              (s.settling none).Moves (session.settling none) (s.runLegs ticks)
                (s.serveAll ticks))) ∧
      (∀ node choices choice, s.interpreter.phase = .paused (.choice node choices) →
        choices = 0 ∨ choice < choices →
        let outlet := if 0 < choices then choiceOutlet choice else usualOutlet
        s.choose choice =
          ⟨⟨s.interpreter.resumed session node outlet, Host.perform .hide s.host⟩,
            [.call .hide]⟩) ∧
      ∀ node, s.interpreter.phase = .paused (.timeAdvance node) →
        s.skipEnded = .still ⟨s.interpreter.resumed session node usualOutlet, s.host⟩ := by
  refine ⟨?_, ?_, ?_⟩
  · intro running budget left es
    refine ⟨fun early => (ticks_early running playing early).1, ?_⟩
    intro e early ticks
    obtain ⟨served, walked⟩ := ticks_joined running playing early e
    refine ⟨served, fun due => ?_⟩
    rw [served, walked]
    exact tick_moves running playing budget due
  · intro node choices choice waits known
    exact choose_resumes playing waits known
  · intro node waits
    exact skipEnded_resumes playing waits

/-- A departure that is answered, and three days until the end. -/
def departure : Graph where
  name := "departure"
  nodes := [⟨"start", .start "daily"⟩, ⟨"leave", .message none "Farewell!" ["Bye"] none⟩,
    ⟨"wait", .timeSkip .day 3⟩, ⟨"end", .final⟩]
  links := [⟨"start", "start", "leave"⟩, ⟨"leave", "choices 0", "wait"⟩,
    ⟨"wait", "output", "end"⟩]
  valid := Document.fault?_eq_none (by decide)

theorem settling_exact_departure :
    let today : Date := ⟨738886, by decide, by decide⟩
    let s : Stage Recorder := fresh ⟨false, 5, 8, some 7⟩ (.ofSeed 7) ⟨today, #[], false⟩
    let asked := (s.serve (.start departure)).stage
    let answered := (asked.choose 0).stage
    let waiting := (answered.tick 5).stage
    let settled : Session := ⟨departure, some "wait", "daily", none⟩
    asked.choose 0 =
        ⟨⟨asked.interpreter.resumed ⟨departure, some "leave", "daily", none⟩ "leave" "choices 0",
          Host.perform .hide asked.host⟩, [.call .hide]⟩ ∧
      answered.serveAll [.tick 2, .tick 2] = .still (answered.settling (some 1)) ∧
      answered.serveAll [.tick 2, .tick 0, .tick 3] = answered.tick 5 ∧
      (answered.settling none).Moves settled (answered.runLegs [.tick 2, .tick 0, .tick 3])
        (answered.serveAll [.tick 2, .tick 0, .tick 3]) ∧
      waiting.skipEnded =
        .still ⟨waiting.interpreter.resumed settled "wait" "output", waiting.host⟩ := by
  intro today s asked answered waiting settled
  have playing : answered.interpreter.session = some (settled.settling (some 5)) := rfl
  have arriving : waiting.interpreter.session = some settled := rfl
  obtain ⟨-, chosen, -⟩ := settling_exact (s := asked) rfl
  obtain ⟨ticks, -, -⟩ := settling_exact playing
  obtain ⟨-, -, arrived⟩ := settling_exact arriving
  obtain ⟨early, -⟩ := ticks rfl (by decide) [2, 2]
  obtain ⟨-, last⟩ := ticks rfl (by decide) [2, 0]
  obtain ⟨one, moves⟩ := last 3 (.inr (by decide))
  exact ⟨chosen "leave" 1 0 rfl (by decide), early (by decide), one, moves (by decide),
    arrived "wait" rfl⟩

end Stage

end Storyline
