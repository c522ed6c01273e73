import Storyline.Proofs.Interpreter.Speech

/-!
# The invariant of interpreters

Phase and session of an interpreter always fit together, after every request and after every pass of
a walk. So the walk never meets a node that its graph does not have.

* `Interpreter.Sound`: how phase, session and graph fit together.
* `Stage.serveAll_sound`: they do in every run.
-/

namespace Storyline

/-! ## The invariant -/

namespace Interpreter

structure Sound (i : Interpreter) : Prop where
  idle_iff : i.phase = .idle ↔ i.session = none
  choice : ∀ id choices, i.phase = .paused (.choice id choices) → ∃ session,
    i.session = some session ∧ session.current = some id ∧ session.settle = none ∧
      ∃ image text options speaker, options.length = choices ∧
        session.graph.node? id = some ⟨id, .message image text options speaker⟩
  timeAdvance : ∀ id, i.phase = .paused (.timeAdvance id) → ∃ session,
    i.session = some session ∧ session.current = some id ∧ session.settle = none ∧
      ∃ unit amount, session.graph.node? id = some ⟨id, .timeSkip unit amount⟩
  running : i.phase = .running → ∃ session, i.session = some session ∧
    ∀ id, session.current = some id → ∃ node, session.graph.node? id = some node

theorem Idle.sound {i : Interpreter} (h : i.Idle) : i.Sound where
  idle_iff := ⟨fun _ => h.2, fun _ => h.1⟩
  choice id choices phase := by simp [h.1] at phase
  timeAdvance id phase := by simp [h.1] at phase
  running phase := by simp [h.1] at phase

theorem Plays.sound {i : Interpreter} {g : Graph} {p : Place} (h : i.Plays g p) : i.Sound := by
  cases h with
  | running phase session holds =>
    constructor
    · simp [phase, session]
    · simp [phase]
    · simp [phase]
    · exact fun _ => ⟨_, session, holds⟩
  | @paused category suspension phase session awaits =>
    constructor
    · simp [phase, session]
    · intro id choices same
      obtain rfl : suspension = .choice id choices := Phase.paused.inj (phase.symm.trans same)
      obtain ⟨image, text, options, speaker, found, length⟩ := awaits
      exact ⟨_, session, rfl, rfl, image, text, options, speaker, length, found⟩
    · intro id same
      obtain rfl : suspension = .timeAdvance id := Phase.paused.inj (phase.symm.trans same)
      exact ⟨_, session, rfl, rfl, awaits⟩
    · simp [phase]

theorem Coherent.sound {i : Interpreter} (h : i.Coherent) : i.Sound := by
  rcases h with idle | ⟨g, p, plays⟩
  · exact idle.sound
  · exact plays.sound

end Interpreter

/-! ## Notices of a walk that went wrong -/

/-- Whether an event tells of a graph that lacks its start node or another one. -/
def Event.isFlaw : Event → Bool
  | .notice (.nodeUnresolved ..) => true
  | .notice (.scenarioUnusable _) => true
  | _ => false

def Flawless (events : List Event) : Prop :=
  ∀ e ∈ events, e.isFlaw = false

theorem Flawless.append {es fs : List Event} (h₁ : Flawless es) (h₂ : Flawless fs) :
    Flawless (es ++ fs) := by
  intro e mem
  rcases List.mem_append.1 mem with mem | mem
  · exact h₁ e mem
  · exact h₂ e mem

theorem Played.flawless {es : List Event} (h : Played es) : Flawless es := by
  intro e mem
  cases flaw : e.isFlaw with
  | false => rfl
  | true =>
    have played := h e mem
    unfold Event.isFlaw at flaw
    split at flaw <;> contradiction

namespace Stage

variable {H : Type} [Host H]

theorem walk_flawless {s : Stage H} (coherent : s.interpreter.Coherent)
    (settled : s.interpreter.Settled) (n : Nat) :
    Flawless (s.walk n).events ∧ (s.walk n).stage.interpreter.Coherent :=
  ⟨(walk_played coherent settled n).1.flawless, (walk_played coherent settled n).2⟩

/-! ## Every run -/

omit [Host H] in
theorem prologue_flawless (r : Request H) : Flawless r.prologue := by
  cases r with
  | start g =>
    obtain ⟨id, category, first⟩ := g.exists_start
    simp [Request.prologue, first, Flawless, sessionOpening, Event.isFlaw]
  | _ => simp [Request.prologue, Flawless, sessionOpening, Event.isFlaw]

theorem serve_flawless {s : Stage H} (coherent : s.interpreter.Coherent) (r : Request H) :
    Flawless (s.serve r).events := by
  obtain ⟨rest, played, events⟩ := serve_played coherent r
  rw [events]
  refine .append ?_ played.flawless
  split
  · exact prologue_flawless r
  · simp [Flawless]

theorem serveAll_flawless {s : Stage H} (coherent : s.interpreter.Coherent)
    (rs : List (Request H)) : Flawless (s.serveAll rs).events := by
  induction rs generalizing s with
  | nil => simp [Flawless, serveAll]
  | cons r rs ih => exact (serve_flawless coherent r).append (ih (serves coherent r).coherent)

/-- In every run phase and session fit together, after every request as well as after every pass of
a walk. So no walk lacks its session or its node, no answer lacks its session, and no graph lacks
its start node. -/
theorem serveAll_sound (settings : Settings) (entropy : Generator) (host : H)
    (rs : List (Request H)) :
    let t := (fresh settings entropy host).serveAll rs
    t.stage.interpreter.Sound ∧
      (∀ r s, t.stage.entrance? r = some s → (t.stage.serve r).stage = s.proceed.stage ∧
        ∀ n, (s.walk n).stage.interpreter.Sound) ∧
      (∀ suspension, t.stage.interpreter.phase = .paused suspension →
        t.stage.interpreter.session ≠ none) ∧
      (∀ g : Graph, g.start? ≠ none) ∧ ∀ e ∈ t.events, e.isFlaw = false := by
  intro t
  have idle : (fresh settings entropy host).interpreter.Idle := fresh_idle settings entropy host
  have coherent : t.stage.interpreter.Coherent := serveAll_coherent (.inl idle) rs
  refine ⟨coherent.sound, ?_, ?_, ?_, serveAll_flawless (.inl idle) rs⟩
  · intro r s entrance
    obtain ⟨coherent', settled⟩ := entrance?_coherent coherent entrance
    exact ⟨(serve_of_entrance entrance).1, fun n => (walk_flawless coherent' settled n).2.sound⟩
  · intro suspension phase none
    rw [← coherent.sound.idle_iff, phase] at none
    contradiction
  · intro g none
    obtain ⟨id, category, first⟩ := g.exists_start
    simp [none] at first

end Stage

end Storyline
