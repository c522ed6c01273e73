import Storyline.Proofs.Director.Days
import Storyline.Proofs.Interpreter.Ending
import Storyline.Proofs.Player

/-!
# The clock under a director

While nothing is being played the clock runs, unless the game is over. Once its end was requested the
game is over as soon as nothing is being played.

* `Stage.Tended`, `Stage.act_tended`: the clock is found running between two sessions.
* `Stage.Closing`, `Stage.act_closing`: a game that is coming to its end goes on doing so.
-/

namespace Storyline

/-! ## Consoles -/

/-- Whether a call leaves the clock as it is. -/
def Call.sparesClock : Call → Bool
  | .reset | .startClock | .gameOver => false
  | _ => true

theorem Call.sparesClock_of_isEffect {c : Call} (h : c.isEffect = true) : c.sparesClock = true := by
  cases c <;> trivial

theorem sparesClock_legs (legs : List Leg) : ∀ c ∈ legs.flatMap Leg.calls, c.sparesClock := by
  intro c mem
  obtain ⟨leg, -, mem⟩ := List.mem_flatMap.1 mem
  cases leg with
  | visit v => exact Call.sparesClock_of_isEffect (v.isEffect_calls c mem)
  | answer choice =>
    obtain rfl := List.mem_singleton.1 mem
    rfl
  | arrival => contradiction

namespace Console

/-- The clock was started, and is stopped by nothing but the end of the game. -/
def Alive (c : Console) : Prop :=
  c.clockRunning = true ∨ c.gameOver = true

theorem perform_alive {c : Console} (alive : c.Alive) {call : Call}
    (spares : call.sparesClock = true) : (Console.perform call c).Alive := by
  cases call with
  | advance days =>
    simp only [Console.perform, advance]
    split <;> exact alive
  | reset => contradiction
  | startClock => contradiction
  | gameOver => contradiction
  | _ => exact alive

theorem performAll_alive {c : Console} (alive : c.Alive) {calls : List Call}
    (spare : ∀ call ∈ calls, call.sparesClock) : (Host.performAll c calls).Alive :=
  Host.performAll_preserves (P := Alive)
    (fun call mem _ alive => perform_alive alive (spare call mem)) alive

theorem performAll_ending {c : Console} (alive : c.Alive) (last : Bool) (category : Category) :
    let after := Host.performAll c ((sessionEnding false last category).filterMap Event.call?)
    after.Alive ∧ after.paused = false := by
  cases last with
  | false => exact ⟨alive, rfl⟩
  | true => exact ⟨.inr rfl, rfl⟩

end Console

namespace Stage

/-! ## The clock between two sessions -/

structure Tended (s : Stage Console) : Prop where
  awake : s.interpreter.settings.sandbox = false
  alive : s.host.Alive
  unpaused : s.interpreter.Idle → s.host.paused = false

theorem Tended.of_eq {s t : Stage Console} (h : s.Tended)
    (settings : t.interpreter.settings = s.interpreter.settings)
    (idle : t.interpreter.Idle → s.interpreter.Idle)
    (running : t.host.clockRunning = s.host.clockRunning)
    (paused : t.host.paused = s.host.paused) (isOver : t.host.gameOver = s.host.gameOver) :
    t.Tended where
  awake := by rw [settings, h.awake]
  alive := by
    unfold Console.Alive
    rw [running, isOver]
    exact h.alive
  unpaused still := by rw [paused, h.unpaused (idle still)]

theorem Proceeds.tended {s : Stage Console} {g : Graph} {p : Place} {legs : List Leg}
    {t u : Turn Console} (h : s.Proceeds g p legs u) (tended : s.Tended) (quiet : List Event)
    (spare : ∀ c ∈ quiet.filterMap Event.call?, c.sparesClock)
    (interpreter : t.stage.interpreter = u.stage.interpreter)
    (events : heard t.events = quiet ++ heard u.events) (faithful : s.Faithful t) :
    t.stage.Tended := by
  have host := faithful.of_heard
  have quietly : (Host.performAll s.host
      (quiet.filterMap Event.call? ++ legs.flatMap Leg.calls)).Alive := by
    apply Console.performAll_alive tended.alive
    intro c mem
    rcases List.mem_append.1 mem with mem | mem
    · exact spare c mem
    · exact sparesClock_legs legs c mem
  cases h with
  | ongoing walk plays settings flag agenda happened =>
    rw [events, happened, List.filterMap_append, call_calls] at host
    refine ⟨?_, ?_, fun idle => ?_⟩
    · rw [interpreter, settings, tended.awake]
    · rwa [host]
    · rw [interpreter] at idle
      exact absurd idle plays.not_idle
  | ended walk last idle settings flag agenda happened =>
    -- Outside a sandbox the end of a session lets the clock run on, or ends the game.
    rw [events, happened, tended.awake, ← List.append_assoc, List.filterMap_append,
      List.filterMap_append, call_calls, Host.performAll_append] at host
    obtain ⟨alive, unpaused⟩ := Console.performAll_ending quietly s.interpreter.endRequested _
    refine ⟨?_, ?_, fun _ => ?_⟩
    · rw [interpreter, settings, tended.awake]
    · rw [host]
      exact alive
    · rw [host]
      exact unpaused

theorem serve_tended {s : Stage Console} (tended : s.Tended) (coherent : s.interpreter.Coherent)
    {r : Request Console} (own : ∀ f, r ≠ .change f) : (s.serve r).stage.Tended := by
  have faithful := serve_faithful (s := s) own
  have host := faithful.of_heard
  cases serves coherent r with
  | rests idle closed after settings flag agenda legs silent =>
    rw [silent] at host
    apply tended.of_eq settings (fun _ => idle) <;> rw [host] <;> rfl
  | begins idle opens proceeds stage events =>
    exact proceeds.tended tended _ (by simp [sessionOpening, Event.call?, Call.sparesClock])
      (by rw [stage]) events faithful
  | stands plays after settings flag agenda legs silent =>
    rw [silent] at host
    apply tended.of_eq settings (fun idle => absurd idle after.not_idle) <;> rw [host] <;> rfl
  | proceeds plays inert proceeds =>
    exact proceeds.tended tended [] (by simp) rfl rfl faithful
  | @finishes g p plays request after settings flag agenda legs events =>
    rw [events, tended.awake] at host
    obtain ⟨alive, unpaused⟩ :=
      Console.performAll_ending tended.alive s.interpreter.endRequested p.category
    refine ⟨?_, ?_, fun _ => ?_⟩
    · rw [settings, tended.awake]
    · rw [host]
      exact alive
    · rw [host]
      exact unpaused

/-! ## The end that was requested -/

/-- The game is over, or will be once the session has ended. -/
def Closing (s : Stage Console) : Prop :=
  s.host.gameOver = true ∨ s.interpreter.isActive = true ∧ s.interpreter.endRequested = true

theorem Closing.gameOver {s : Stage Console} (h : s.Closing) (idle : s.interpreter.Idle) :
    s.host.gameOver = true := by
  rcases h with isOver | ⟨active, -⟩
  · exact isOver
  · simp [Interpreter.isActive, idle.2] at active

theorem Faithful.over {s : Stage Console} {t : Turn Console} (h : s.Faithful t)
    (isOver : s.host.gameOver = true) : t.stage.host.gameOver = true := by
  rw [h.gameOver, isOver, Bool.true_or]

theorem Faithful.over_of_mem {s : Stage Console} {t : Turn Console} (h : s.Faithful t)
    (mem : .call .gameOver ∈ heard t.events) : t.stage.host.gameOver = true := by
  rw [h.gameOver, decide_eq_true (List.mem_filter.1 mem).1, Bool.or_true]

theorem Proceeds.closing {s : Stage Console} {g : Graph} {p : Place} {legs : List Leg}
    {t u : Turn Console} (h : s.Proceeds g p legs u) (asked : s.interpreter.endRequested = true)
    (quiet : List Event) (interpreter : t.stage.interpreter = u.stage.interpreter)
    (events : heard t.events = quiet ++ heard u.events) (faithful : s.Faithful t) :
    t.stage.Closing := by
  cases h with
  | ongoing walk plays settings flag agenda happened =>
    refine .inr ⟨?_, ?_⟩
    · rw [interpreter]
      exact plays.isActive
    · rw [interpreter, flag, asked]
  | ended walk last idle settings flag agenda happened =>
    apply Or.inl
    apply faithful.over_of_mem
    simp [events, happened, asked, sessionEnding]

theorem serve_closing {s : Stage Console} (coherent : s.interpreter.Coherent)
    (asked : s.interpreter.endRequested = true) {r : Request Console} (own : ∀ f, r ≠ .change f)
    (busy : s.interpreter.Idle → ∃ g id category, r.Opens g id category) :
    (s.serve r).stage.Closing := by
  have faithful := serve_faithful (s := s) own
  cases serves coherent r with
  | rests idle closed =>
    obtain ⟨g, id, category, opens⟩ := busy idle
    exact absurd opens (closed g id category)
  | begins idle opens proceeds stage events =>
    exact proceeds.closing asked _ (by rw [stage]) events faithful
  | stands plays after settings flag =>
    refine .inr ⟨after.isActive, ?_⟩
    rw [flag, asked, Bool.true_or]
  | proceeds plays inert proceeds =>
    exact proceeds.closing asked [] rfl rfl faithful
  | finishes plays request after settings flag agenda legs events =>
    apply Or.inl
    apply faithful.over_of_mem
    simp [events, asked, sessionEnding]

theorem Closing.serve {s : Stage Console} (h : s.Closing) (coherent : s.interpreter.Coherent)
    {r : Request Console} (own : ∀ f, r ≠ .change f) : (s.serve r).stage.Closing := by
  rcases h with isOver | ⟨active, asked⟩
  · exact .inl ((serve_faithful own).over isOver)
  · apply serve_closing coherent asked own
    intro idle
    simp [Interpreter.isActive, idle.2] at active

/-! ## Acts -/

theorem call_tended {s : Stage Console} (tended : s.Tended) {c : Call} (direct : c.isDirect = true) :
    (s.call c).stage.Tended := by
  cases c with
  | startClock => exact ⟨tended.awake, .inl rfl, tended.unpaused⟩
  | deductDaily => exact ⟨tended.awake, tended.alive, tended.unpaused⟩
  | creditMonthly => exact ⟨tended.awake, tended.alive, tended.unpaused⟩
  | _ => contradiction

theorem act_tended {s : Stage Console} (tended : s.Tended) (coherent : s.interpreter.Coherent)
    {a : Act Console} (plain : a.Plain) : (s.act a).stage.Tended := by
  cases a with
  | tell n => exact tended
  | call c => exact call_tended tended plain
  | serve r => exact serve_tended tended coherent plain.2
  | startDue =>
    rcases Director.startDue_cases s with still | ⟨inactive, due, c, rest, -, starts⟩
    · rw [act, still]
      exact tended
    · have idle := coherent.idle_of_inactive inactive
      have same : (s.modify fun i => { i with agenda := rest }).Tended :=
        ⟨tended.awake, tended.alive, tended.unpaused⟩
      rw [act, starts]
      exact serve_tended same (.inl idle) (by simp)

theorem act_closing {s : Stage Console} (closing : s.Closing) (coherent : s.interpreter.Coherent)
    {a : Act Console} (plain : a.Plain) : (s.act a).stage.Closing := by
  cases a with
  | tell n => exact closing
  | call c =>
    rcases closing with isOver | rest
    · exact .inl ((s.faithful_call c).over isOver)
    · exact .inr rest
  | serve r => exact closing.serve coherent plain.2
  | startDue =>
    rcases Director.startDue_cases s with still | ⟨inactive, due, c, rest, -, starts⟩
    · rw [act, still]
      exact closing
    · -- Nothing is being played, so the game is over already.
      have isOver := closing.gameOver (coherent.idle_of_inactive inactive)
      exact .inl ((Director.faithful_startDue s).over isOver)

theorem actAll_closing {s : Stage Console} (closing : s.Closing)
    (coherent : s.interpreter.Coherent) {acts : List (Act Console)}
    (plain : ∀ a ∈ acts, a.Plain) : (s.actAll acts).stage.Closing := by
  have both := actAll_preserves (P := fun s => s.interpreter.Coherent ∧ s.Closing)
    (fun s a plain h => ⟨act_coherent h.1 a, act_closing h.2 h.1 plain⟩) plain
      ⟨coherent, closing⟩
  exact both.2

end Stage

/-! ## Chronicles -/

namespace Director.Chronicle

variable {d : Director} {s₀ s : Stage Console} {days : List NewDay} {acts : List (Act Console)}
  {es : List Event}

theorem tended (h : d.Chronicle s₀ days acts es s) (coherent : s₀.interpreter.Coherent)
    (first : s₀.Tended) : s.Tended := by
  have both := h.preserves (P := fun s => s.interpreter.Coherent ∧ s.Tended) ⟨coherent, first⟩
    (fun s a plain h => ⟨Stage.act_coherent h.1 a, Stage.act_tended h.2 h.1 plain⟩)
    (fun s _ _ _ h => ⟨h.1, h.2.awake, h.2.alive, h.2.unpaused⟩)
  exact both.2

theorem closing (h : d.Chronicle s₀ days acts es s) (coherent : s₀.interpreter.Coherent)
    (first : s₀.Closing) : s.Closing := by
  have both := h.preserves (P := fun s => s.interpreter.Coherent ∧ s.Closing) ⟨coherent, first⟩
    (fun s a plain h => ⟨Stage.act_coherent h.1 a, Stage.act_closing h.2 h.1 plain⟩)
    (fun s _ _ _ h => h)
  exact both.2

end Director.Chronicle

end Storyline
