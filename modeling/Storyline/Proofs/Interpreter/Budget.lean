import Storyline.Proofs.Director.Basic
import Storyline.Proofs.Interpreter.Settling

/-!
# Step budgets

How many steps are allowed at a time only cuts the walk of a session into pieces.

* `Stage.unbudgeted_walk`: a walk of so many steps does not depend on how many are allowed.
* `Stage.serveAll_ticks`: ticks of a session that has settled are one walk.
* `Stage.budget_chunks`: the walks of two interpreters that differ in their budgets.
-/

namespace Storyline

variable {H : Type}

/-- The same stage with another number of steps allowed at a time. -/
def Stage.allowing (s : Stage H) (steps : Nat) : Stage H :=
  s.modify fun i => { i with settings := { i.settings with maxSteps := steps } }

def Turn.allowing (t : Turn H) (steps : Nat) : Turn H :=
  ⟨t.stage.allowing steps, t.events⟩

/-- The calls of a turn that are effects of nodes. -/
def Turn.effects (t : Turn H) : List Call :=
  (t.events.filterMap Event.call?).filter Call.isEffect

theorem Turn.effects_andThen (t : Turn H) (f : Stage H → Turn H) :
    (t.andThen f).effects = t.effects ++ (f t.stage).effects := by
  simp [effects]

namespace Stage

/-- Nothing depends on how many steps are allowed at a time. -/
def Unbudgeted (f : Stage H → Turn H) : Prop :=
  ∀ s steps, f (s.allowing steps) = (f s).allowing steps

theorem unbudgeted_still : Unbudgeted (Turn.still (H := H)) :=
  fun _ _ => rfl

theorem Unbudgeted.andThen {f g : Stage H → Turn H} (hf : Unbudgeted f) (hg : Unbudgeted g) :
    Unbudgeted fun s => (f s).andThen g := by
  intro s steps
  simp [Turn.andThen, hf s steps, Turn.allowing, hg _ steps]

theorem unbudgeted_tell (n : Notice) : Unbudgeted fun s : Stage H => s.tell n :=
  fun _ _ => rfl

theorem unbudgeted_send (n : Notification) : Unbudgeted fun s : Stage H => s.send n :=
  fun _ _ => rfl

variable [Host H]

theorem unbudgeted_call (c : Call) : Unbudgeted fun s : Stage H => s.call c :=
  fun _ _ => rfl

theorem unbudgeted_playEvents (es : List Event) :
    Unbudgeted fun s : Stage H => s.playEvents es := by
  induction es with
  | nil => exact unbudgeted_still
  | cons e es ih =>
    cases e with
    | call c => exact (unbudgeted_call c).andThen ih
    | notice n => exact (unbudgeted_tell n).andThen ih
    | sent n => exact (unbudgeted_send n).andThen ih

theorem unbudgeted_endGame : Unbudgeted (endGame (H := H)) := by
  intro s steps
  have same : (s.allowing steps).interpreter.endRequested = s.interpreter.endRequested := rfl
  unfold endGame
  rw [same]
  split <;> rfl

theorem unbudgeted_finish : Unbudgeted (finish (H := H)) := by
  intro s steps
  cases playing : s.interpreter.session with
  | none =>
    rw [finish_idle playing, finish_idle (s := s.allowing steps) playing]
    rfl
  | some session =>
    have release : Unbudgeted fun s : Stage H =>
        if s.interpreter.settings.sandbox then .still s else s.call (.pause false) := by
      intro s steps
      have same : (s.allowing steps).interpreter.settings.sandbox =
        s.interpreter.settings.sandbox := rfl
      simp only [same]
      split <;> rfl
    have chain := ((((unbudgeted_send (H := H) (.finished session.category)).andThen
      (unbudgeted_call .hide)).andThen release).andThen
      (unbudgeted_tell (.scenarioFinished session.graph.name session.category))).andThen
      unbudgeted_endGame
    have playing' : (s.allowing steps).interpreter.session = some session := playing
    unfold finish
    simp only [playing, playing']
    exact chain (s.modify fun i => { i with session := none, phase := .idle }) steps

theorem unbudgeted_follow (step : Step) : Unbudgeted (follow (H := H) step) := by
  cases step with
  | advance next => exact fun _ _ => rfl
  | suspend suspension => exact fun _ _ => rfl
  | finish => exact unbudgeted_finish

theorem unbudgeted_apply (session : Session) (e : Effects) :
    Unbudgeted fun s : Stage H => s.apply session e := by
  intro s steps
  exact unbudgeted_playEvents e.events (s.modify fun i => i.visited session e) steps

theorem unbudgeted_pass : Unbudgeted (pass (H := H)) := by
  intro s steps
  have phase : (s.allowing steps).interpreter.phase = s.interpreter.phase := rfl
  have session : (s.allowing steps).interpreter.session = s.interpreter.session := rfl
  unfold pass
  rw [phase, session]
  split
  · split
    · exact unbudgeted_finish s steps
    · split
      · exact (unbudgeted_tell _).andThen unbudgeted_finish s steps
      · exact (unbudgeted_apply _ _).andThen (unbudgeted_follow _) s steps
  · rfl

theorem unbudgeted_walk (n : Nat) : Unbudgeted (walk (H := H) n) := by
  induction n with
  | zero => exact unbudgeted_still
  | succ n ih =>
    intro s steps
    rw [walk_succ, walk_succ]
    exact unbudgeted_pass.andThen ih s steps

/-! ## Ticks in a row -/

/-- The settings stay, and so does it that no settling time is left. -/
structure Keeps (s t : Stage H) : Prop where
  settings : t.interpreter.settings = s.interpreter.settings
  settled : s.interpreter.Settled → t.interpreter.Settled

omit [Host H] in
theorem Keeps.trans {s t u : Stage H} (h : s.Keeps t) (h' : t.Keeps u) : s.Keeps u :=
  ⟨h'.settings.trans h.settings, fun settled => h'.settled (h.settled settled)⟩

theorem finish_keeps (s : Stage H) : s.Keeps s.finish.stage := by
  cases playing : s.interpreter.session with
  | none =>
    rw [finish_idle playing]
    exact ⟨rfl, fun settled => settled⟩
  | some session =>
    constructor <;> simp [finish_interpreter playing, Interpreter.Settled]

theorem follow_keeps (s : Stage H) (step : Step) : s.Keeps (s.follow step).stage := by
  cases step with
  | advance next =>
    refine ⟨rfl, fun settled session playing => ?_⟩
    obtain ⟨old, before, rfl⟩ := Option.map_eq_some_iff.1 playing
    exact settled old before
  | suspend suspension => exact ⟨rfl, fun settled => settled⟩
  | finish => exact s.finish_keeps

theorem visit_keeps {s : Stage H} {session : Session}
    (playing : s.interpreter.session = some session) (v : Visit) :
    s.Keeps (s.visit session v).stage := by
  have stage := apply_stage s session
    (session.graph.sent_notMem_effects v s.interpreter.generator)
  have applied : s.Keeps (s.apply session
      (session.graph.effects v.node v.category v.today s.interpreter.generator)).stage := by
    rw [stage]
    refine ⟨rfl, fun settled session' playing' => ?_⟩
    obtain rfl := Option.some.inj playing'
    exact settled session playing
  exact applied.trans (follow_keeps _ _)

theorem pass_keeps (s : Stage H) : s.Keeps s.pass.stage := by
  cases s.pass_passes with
  | rests resting visitless turn =>
    rw [turn]
    exact ⟨rfl, fun settled => settled⟩
  | ends playing nowhere visitless stage events =>
    rw [stage]
    exact s.finish_keeps
  | visits playing current visit turn =>
    rw [turn]
    exact visit_keeps playing _

theorem walk_keeps (s : Stage H) (n : Nat) : s.Keeps (s.walk n).stage := by
  induction n generalizing s with
  | zero => exact ⟨rfl, fun settled => settled⟩
  | succ n ih =>
    rw [walk_succ]
    exact s.pass_keeps.trans (ih _)

theorem tick_of_settled {s : Stage H} (settled : s.interpreter.Settled) (elapsed : Nat) :
    s.tick elapsed = s.proceed := by
  by_cases running : s.interpreter.phase = .running
  · cases playing : s.interpreter.session with
    | none => simp only [tick, running, playing]
    | some session => simp only [tick, running, playing, settled session playing]
  · rw [proceed, walk_of_resting running]
    unfold tick
    split
    · contradiction
    · rfl

theorem serveAll_ticks {s : Stage H} (settled : s.interpreter.Settled) (es : List Nat) :
    s.serveAll (es.map .tick) = s.walk (es.length * s.interpreter.settings.maxSteps) := by
  induction es generalizing s with
  | nil =>
    rw [List.length_nil, Nat.zero_mul]
    rfl
  | cons e es ih =>
    have keeps := s.walk_keeps s.interpreter.settings.maxSteps
    have rest := ih (keeps.settled settled)
    rw [keeps.settings] at rest
    rw [List.length_cons, Nat.add_one_mul, Nat.add_comm, walk_add]
    simp only [List.map_cons, serveAll, serve, tick_of_settled settled]
    exact Turn.andThen_congr rest

/-! ## Visits of a tick -/

theorem walkLegs_length (s : Stage H) (n : Nat) : (s.walkLegs n).length ≤ n := by
  induction n generalizing s with
  | zero => exact Nat.le_refl 0
  | succ n ih =>
    have one : s.passLegs.length ≤ 1 := by
      cases visit : s.visit? <;> simp [passLegs, visit]
    rw [walkLegs, List.length_append, Nat.add_comm n]
    exact Nat.add_le_add one (ih _)

theorem finish_effects (s : Stage H) : s.finish.effects = [] := by
  cases playing : s.interpreter.session with
  | none =>
    rw [finish_idle playing]
    rfl
  | some session => rw [Turn.effects, ← calls_heard, finish_heard playing, effects_ending]

theorem visit_effects (s : Stage H) (session : Session) (v : Visit) :
    (s.visit session v).effects = v.calls := by
  have after (step : Step) (s : Stage H) : (s.follow step).effects = [] := by
    cases step with
    | finish => exact s.finish_effects
    | _ => rfl
  rw [visit, Turn.effects_andThen, after, List.append_nil, Turn.effects, apply_events,
    ← calls_heard, Graph.effects_heard, call_calls]
  exact List.filter_eq_self.2 v.isEffect_calls

theorem pass_effects (s : Stage H) : s.pass.effects = s.passLegs.flatMap Leg.calls := by
  cases s.pass_passes with
  | rests resting visitless turn =>
    rw [passLegs_of_visitless visitless, turn]
    rfl
  | ends playing nowhere visitless stage events =>
    rw [passLegs_of_visitless visitless, Turn.effects, ← calls_heard, events, calls_heard]
    exact s.finish_effects
  | visits playing current visit turn =>
    rw [passLegs_of_visit? visit, turn, visit_effects]
    simp [Leg.calls]

theorem walk_effects (s : Stage H) (n : Nat) :
    (s.walk n).effects = (s.walkLegs n).flatMap Leg.calls := by
  induction n generalizing s with
  | zero => rfl
  | succ n ih =>
    rw [walk_succ, Turn.effects_andThen, walkLegs, List.flatMap_append, pass_effects, ih]

omit [Host H] in
theorem settled?_settings {s t : Stage H} {elapsed : Nat} (h : s.settled? elapsed = some t) :
    t.interpreter.settings = s.interpreter.settings := by
  unfold settled? at h
  split at h
  · split at h
    · obtain rfl := Option.some.inj h
      rfl
    · split at h
      · contradiction
      · obtain rfl := Option.some.inj h
        rfl
  · obtain rfl := Option.some.inj h
    rfl
  · contradiction

/-- A tick makes no more visits than are allowed at a time, and its effects are theirs. -/
theorem tick_visits (s : Stage H) (elapsed : Nat) :
    (s.legs (.tick elapsed)).length ≤ s.interpreter.settings.maxSteps ∧
      (s.tick elapsed).effects = (s.legs (.tick elapsed)).flatMap Leg.calls := by
  cases due : s.settled? elapsed with
  | none =>
    have legs : s.legs (.tick elapsed) = [] := by
      simp only [legs, entrance?, due, Option.elim_none]
    rw [legs, Turn.effects, tick_silent due]
    exact ⟨Nat.zero_le _, rfl⟩
  | some t =>
    have legs : s.legs (.tick elapsed) = t.walkLegs t.interpreter.settings.maxSteps := by
      simp only [legs, entrance?, due, Option.elim_some]
    rw [legs, tick_eq_proceed due, ← settled?_settings due]
    exact ⟨t.walkLegs_length _, t.walk_effects _⟩

/-! ## Different budgets -/

/-- What comes before the walk of a scenario that is started. -/
def entering (s : Stage H) (g : Graph) (id : NodeId) (category : Category) : Turn H :=
  (s.tell (.scenarioStarted g.name category)).andThen (·.opening (.at g id category))

theorem unbudgeted_entering (g : Graph) (id : NodeId) (category : Category) :
    Unbudgeted fun s : Stage H => s.entering g id category :=
  fun _ _ => rfl

/-- A scenario that is started and then only ticked is one walk. -/
theorem serveAll_start {s : Stage H} (inactive : s.interpreter.isActive = false) {g : Graph}
    {id : NodeId} {category : Category} (first : g.start? = some ⟨id, .start category⟩)
    (es : List Nat) :
    s.serveAll (.start g :: es.map .tick) =
      (s.entering g id category).andThen
        (walk ((es.length + 1) * s.interpreter.settings.maxSteps)) := by
  have started : s.serve (.start g) = (s.entering g id category).andThen proceed := by
    simp [serve, start_eq s first, inactive, entering, begin_eq, Turn.andThen_assoc]
  have settled := (s.tell (.scenarioStarted g.name category)).stage.opening_settled g id category
  -- Nothing settles at a start, so what the start itself walks is one more tick.
  have ticks := serveAll_ticks settled (0 :: es)
  simp only [List.map_cons, serveAll, serve, tick_of_settled settled, List.length_cons] at ticks
  rw [serveAll, started, Turn.andThen_assoc]
  exact Turn.andThen_congr ticks

theorem serveAll_allowing {s : Stage H} (inactive : s.interpreter.isActive = false) {g : Graph}
    {id : NodeId} {category : Category} (first : g.start? = some ⟨id, .start category⟩)
    (steps : Nat) (es : List Nat) :
    (s.allowing steps).serveAll (.start g :: es.map .tick) =
      ((s.entering g id category).andThen (walk ((es.length + 1) * steps))).allowing steps := by
  rw [serveAll_start (s := s.allowing steps) inactive first]
  exact (unbudgeted_entering g id category).andThen (unbudgeted_walk _) s steps

theorem walk_of_le (t : Turn H) {m n : Nat} (le : m ≤ n) :
    (t.andThen (walk m)).events <+: (t.andThen (walk n)).events ∧
      ((t.andThen (walk m)).stage.interpreter.phase ≠ .running →
        t.andThen (walk n) = t.andThen (walk m)) := by
  obtain ⟨k, rfl⟩ := Nat.exists_eq_add_of_le le
  have longer : t.andThen (walk (m + k)) = (t.andThen (walk m)).andThen (walk k) := by
    rw [Turn.andThen_assoc]
    exact Turn.andThen_congr (walk_add m k _)
  rw [longer]
  refine ⟨List.prefix_append _ _, fun resting => ?_⟩
  rw [Turn.andThen_congr (walk_of_resting resting k), Turn.andThen_still]

/-- Steps that are allowed together can be allowed one after the other. So a scenario that is only
ticked runs alike under any two budgets until it is suspended or ends. No tick visits more nodes
than are allowed, and a director always allows one. -/
theorem budget_chunks (s : Stage H) :
    (∀ m n, s.walk (m + n) = (s.walk m).andThen (walk n)) ∧
      (s.interpreter.isActive = false → ∀ (g : Graph) (m m' : Nat) (es es' : List Nat),
        (es.length + 1) * m ≤ (es'.length + 1) * m' →
        let t := (s.allowing m).serveAll (.start g :: es.map .tick)
        let t' := (s.allowing m').serveAll (.start g :: es'.map .tick)
        t.events <+: t'.events ∧
          (t.stage.interpreter.phase ≠ .running →
            t'.events = t.events ∧ t'.stage = t.stage.allowing m')) ∧
      (∀ elapsed, let legs := s.legs (.tick elapsed)
        legs.length ≤ s.interpreter.settings.maxSteps ∧
          (s.tick elapsed).effects = legs.flatMap Leg.calls) ∧
      ∀ (d : Director) (session : Session) (elapsed : Nat),
        s.interpreter.settings = d.config.settings → s.interpreter.phase = .running →
        s.interpreter.session = some session → session.settle.getD 0 ≤ elapsed →
        (s.settling none).Moves (session.settling none) (s.legs (.tick elapsed)) (s.tick elapsed) ∧
          Director.tick elapsed s = (s.tick elapsed).andThen Director.startDue := by
  refine ⟨fun m n => walk_add m n s, ?_, s.tick_visits, ?_⟩
  · intro inactive g m m' es es' le t t'
    obtain ⟨id, category, first⟩ := g.exists_start
    obtain ⟨before, same⟩ := walk_of_le (s.entering g id category) le
    have run : t = _ := serveAll_allowing inactive first m es
    have run' : t' = _ := serveAll_allowing inactive first m' es'
    rw [run, run']
    refine ⟨before, fun resting => ?_⟩
    rw [same resting]
    exact ⟨rfl, rfl⟩
  · intro d session elapsed settings running playing due
    have budget : 0 < s.interpreter.settings.maxSteps := by
      rw [settings]
      exact Nat.le_max_right _ 1
    exact ⟨tick_moves running playing budget due, rfl⟩

/-- The director is configured with no steps at all. -/
theorem budget_chunks_departure :
    let today : Date := ⟨738886, by decide, by decide⟩
    let d := (Director.new { Config.default with maxSteps := 0, seed := some 7 } []).1
    let s : Stage Recorder := fresh d.config.settings (.ofSeed 7) ⟨today, #[], false⟩
    let t := (s.allowing 1).serveAll [.start departure, .tick 3]
    let t' := (s.allowing 8).serveAll [.start departure]
    let answered := (t.stage.choose 0).stage
    let settled : Session := ⟨departure, some "wait", "daily", none⟩
    let delay := d.config.settings.resumeDelay
    t.events <+: t'.events ∧ t'.events = t.events ∧ t'.stage = t.stage.allowing 8 ∧
      (answered.settling none).Moves settled (answered.legs (.tick delay)) (answered.tick delay) ∧
      Director.tick delay answered = (answered.tick delay).andThen Director.startDue := by
  intro today d s t t' answered settled delay
  obtain ⟨-, alike, -, -⟩ := budget_chunks s
  obtain ⟨-, -, -, ticked⟩ := budget_chunks answered
  obtain ⟨before, same⟩ := alike rfl departure 1 8 [3] [] (by decide)
  obtain ⟨events, stage⟩ := same (by decide)
  exact ⟨before, events, stage,
    ticked d (settled.settling (some delay)) delay rfl rfl rfl (Nat.le_refl delay)⟩

end Stage

end Storyline
