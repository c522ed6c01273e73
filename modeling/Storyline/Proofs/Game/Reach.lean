import Storyline.Proofs.Director.InPlay
import Storyline.Proofs.Game.Course

/-!
# What can be reached

A director and its console go from one operation to the next, whoever asks for them, and a game plays
on from wherever they have come.

* `Stage.Arriving`: a time skip that a session waits for has been made, and its end can be taken.
* `Stage.Ready`: what holds between any two operations.
* `Director.Reaches`: the stages that a director and its console can come to.
-/

namespace Storyline

variable {P : Graph → Prop}

/-! ## Time skips of a console -/

namespace Console

theorem perform_advancing {c : Console} (advancing : c.advancing = true) (call : Call) :
    (Console.perform call c).advancing = true := by
  cases call with
  | advance days =>
    simp only [Console.perform, advance]
    split
    · rfl
    · exact advancing
  | _ => exact advancing

theorem perform_offCalendar {c : Console} (off : c.offCalendar = true) (call : Call) :
    (Console.perform call c).offCalendar = true := by
  cases call with
  | advance days =>
    simp only [Console.perform, advance]
    split
    · exact off
    · rfl
  | _ => exact off

theorem advancing_follows :
    Host.Follows fun c c' : Console => c.advancing = true → c'.advancing = true where
  refl _ advancing := advancing
  trans first second advancing := second (first advancing)
  call _ _ advancing := perform_advancing advancing _
  skip _ _ _ advancing := perform_advancing advancing _

theorem performAll_advancing {c : Console} (advancing : c.advancing = true) (calls : List Call) :
    (Host.performAll c calls).advancing = true :=
  Host.performAll_preserves (P := fun c : Console => c.advancing = true)
    (fun call _ _ advancing => perform_advancing advancing call) advancing

theorem performAll_offCalendar {c : Console} (off : c.offCalendar = true) (calls : List Call) :
    (Host.performAll c calls).offCalendar = true :=
  Host.performAll_preserves (P := fun c : Console => c.offCalendar = true)
    (fun call _ _ off => perform_offCalendar off call) off

/-- A time skip either advances or leaves the calendar. -/
theorem advancing_of_mem {c : Console} {calls : List Call} {days : Int}
    (mem : .advance days ∈ calls) (inside : (Host.performAll c calls).offCalendar = false) :
    (Host.performAll c calls).advancing = true := by
  induction calls generalizing c with
  | nil => contradiction
  | cons call calls ih =>
    have inside : (Host.performAll (Console.perform call c) calls).offCalendar = false := inside
    rcases List.mem_cons.1 mem with rfl | later
    · cases found : c.today.addDays? days with
      | some date =>
        have advanced : (Console.perform (.advance days) c).advancing = true := by
          simp only [Console.perform, advance, found]
          rfl
        exact performAll_advancing advanced calls
      | none =>
        have off : (Console.perform (.advance days) c).offCalendar = true := by
          simp only [Console.perform, advance, found]
        rw [performAll_offCalendar off] at inside
        contradiction
    · exact ih later inside

end Console

/-- A walk that waits for the end of a time skip has waited from the beginning, or has made it. -/
theorem Graph.Walk.arrival {g : Graph} {p : Place} {legs : List Leg} {category : Category}
    {id : NodeId} (h : g.Walk p legs (.awaiting category (.timeAdvance id))) :
    p = .awaiting category (.timeAdvance id) ∨ ∃ days, .advance days ∈ legs.flatMap Leg.calls := by
  generalize last : Place.awaiting category (.timeAdvance id) = q at h
  induction h with
  | nil => exact .inl rfl
  | cons leads rest ih =>
    rw [List.flatMap_cons]
    rcases ih last with same | ⟨days, later⟩
    · subst last same
      cases leads with
      | @timeSkip v unit amount found kind =>
        refine .inr ⟨skipDays unit amount v.today, List.mem_append_left _ ?_⟩
        simp [Leg.calls, Visit.calls, kind]
    · exact .inr ⟨days, List.mem_append_right _ later⟩

namespace Stage

/-! ## Arrivals -/

/-- If a session waits for the end of a time skip, the console knows of it. -/
def Arriving (s : Stage Console) : Prop :=
  ∀ id, s.interpreter.phase = .paused (.timeAdvance id) → s.host.advancing = true

theorem arriving_of_idle {s : Stage Console} (idle : s.interpreter.Idle) : s.Arriving := by
  intro id phase
  rw [idle.1] at phase
  contradiction

theorem place_of_arrival {i : Interpreter} {g : Graph} {p : Place} (plays : i.Plays g p)
    {id : NodeId} (phase : i.phase = .paused (.timeAdvance id)) :
    ∃ category, p = .awaiting category (.timeAdvance id) := by
  cases plays with
  | running running =>
    rw [running] at phase
    contradiction
  | @paused category suspension paused =>
    obtain rfl := Phase.paused.inj (paused.symm.trans phase)
    exact ⟨category, rfl⟩

theorem phase_of_arrival {i : Interpreter} {g : Graph} {category : Category} {id : NodeId}
    (plays : i.Plays g (.awaiting category (.timeAdvance id))) :
    i.phase = .paused (.timeAdvance id) := by
  cases plays
  assumption

theorem Proceeds.arrival {s : Stage Console} {g : Graph} {p : Place} {legs : List Leg}
    {t : Turn Console} (h : s.Proceeds g p legs t) {id : NodeId}
    (phase : t.stage.interpreter.phase = .paused (.timeAdvance id)) :
    (∃ category, p = .awaiting category (.timeAdvance id)) ∨
      ∃ days, .call (.advance days) ∈ heard t.events := by
  cases h with
  | ongoing walk plays settings flag agenda events =>
    obtain ⟨category, rfl⟩ := place_of_arrival plays phase
    rcases walk.arrival with same | ⟨days, mem⟩
    · exact .inl ⟨category, same⟩
    · rw [events]
      exact .inr ⟨days, List.mem_map_of_mem mem⟩
  | ended walk last idle =>
    rw [idle.1] at phase
    contradiction

theorem serve_arriving {s : Stage Console} (coherent : s.interpreter.Coherent)
    (arriving : s.Arriving) (inside : s.host.offCalendar = false) {r : Request Console}
    (own : ∀ f, r ≠ .change f) : (s.serve r).stage.Arriving := by
  intro id phase
  have later := serve_follows Console.advancing_follows s own
  have inside : (s.serve r).stage.host.offCalendar = false :=
    (serve_follows Console.onward_follows s own).offCalendar.trans inside
  -- A skip that was made meanwhile is among the calls, and all calls have been made.
  have made {days : Int} (mem : .call (.advance days) ∈ heard (s.serve r).events) :
      (s.serve r).stage.host.advancing = true := by
    rw [serve_faithful own] at inside ⊢
    exact Console.advancing_of_mem (mem_calls.2 (List.mem_filter.1 mem).1) inside
  cases serves coherent r with
  | rests _ _ after => exact arriving_of_idle after id phase
  | begins _ opens proceeds stage events =>
    rw [stage] at phase
    rcases proceeds.arrival phase with ⟨category, place⟩ | ⟨days, mem⟩
    · contradiction
    · have mem : .call (.advance days) ∈ heard (s.serve r).events := by
        rw [events]
        exact List.mem_append_right _ mem
      exact made mem
  | stands plays after =>
    obtain ⟨category, rfl⟩ := place_of_arrival after phase
    exact later (arriving id (phase_of_arrival plays))
  | proceeds plays _ proceeds =>
    rcases proceeds.arrival phase with ⟨category, rfl⟩ | ⟨days, mem⟩
    · exact later (arriving id (phase_of_arrival plays))
    · exact made mem
  | finishes _ _ after => exact arriving_of_idle after id phase

/-! ## Between two operations -/

/-- What holds of a stage between any two operations if all graphs have a property. -/
structure Ready (P : Graph → Prop) (s : Stage Console) : Prop where
  tidy : s.Tidy
  inPlay : s.InPlay P
  arriving : s.Arriving
  inside : s.host.offCalendar = false
  steps : 0 < s.interpreter.settings.maxSteps

theorem act_settings {s : Stage Console} (coherent : s.interpreter.Coherent) (a : Act Console) :
    (s.act a).stage.interpreter.settings = s.interpreter.settings := by
  cases a with
  | tell n => rfl
  | call c => rfl
  | serve r => exact serve_settings coherent r
  | startDue =>
    rcases Director.startDue_cases s with still | ⟨inactive, due, c, rest, -, starts⟩
    · rw [act, still]
      rfl
    · have idle := coherent.idle_of_inactive inactive
      rw [act, starts]
      exact serve_settings (s := s.withAgenda rest) (.inl idle) (.startAt c)

theorem act_ready {s : Stage Console} (ready : s.Ready P) {a : Act Console} (plain : a.Plain)
    (starts : a.Starts P) : (s.act a).stage.Ready P where
  tidy := act_tidy ready.tidy plain.own
  inPlay := act_inPlay ready.tidy.coherent ready.inPlay plain.own starts
  arriving := by
    cases a with
    | tell n => exact ready.arriving
    | call c => exact fun id phase => Console.perform_advancing (ready.arriving id phase) c
    | serve r => exact serve_arriving ready.tidy.coherent ready.arriving ready.inside plain.2
    | startDue =>
      rcases Director.startDue_cases s with still | ⟨inactive, due, c, rest, -, starts⟩
      · rw [act, still]
        exact ready.arriving
      · have idle := ready.tidy.coherent.idle_of_inactive inactive
        rw [act, starts]
        exact serve_arriving (s := s.withAgenda rest) (.inl idle) (arriving_of_idle idle)
          ready.inside (by simp)
  inside := (act_follows Console.onward_follows plain s).offCalendar.trans ready.inside
  steps := by
    rw [act_settings ready.tidy.coherent]
    exact ready.steps

theorem actAll_ready {s : Stage Console} (ready : s.Ready P) {acts : List (Act Console)}
    (plain : ∀ a ∈ acts, a.Plain) (starts : ∀ a ∈ acts, a.Starts P) :
    (s.actAll acts).stage.Ready P := by
  induction acts generalizing s with
  | nil => exact ready
  | cons a acts ih =>
    obtain ⟨first, plain⟩ := List.forall_mem_cons.1 plain
    obtain ⟨first', starts⟩ := List.forall_mem_cons.1 starts
    exact ih (act_ready ready first first') plain starts

/-- Beside the director its console may change, if it forgets no time skip. -/
theorem Ready.change {s : Stage Console} (ready : s.Ready P) {console : Console}
    (later : s.host.advancing = true → console.advancing = true)
    (inside : console.offCalendar = false) : Ready P { s with host := console } where
  tidy := ⟨ready.tidy.coherent, ready.tidy.ordered, ready.tidy.resolved⟩
  inPlay := ⟨ready.inPlay.session, ready.inPlay.waiting⟩
  arriving id phase := later (ready.arriving id phase)
  inside := inside
  steps := ready.steps

theorem Ready.draw {s : Stage Console} (ready : s.Ready P) (generator : Generator) :
    Ready P (s.modify fun i => { i with generator := generator }) where
  tidy := by
    refine ⟨?_, ready.tidy.ordered, ready.tidy.resolved⟩
    rcases ready.tidy.coherent with idle | ⟨g, p, plays⟩
    · exact .inl idle
    · exact .inr ⟨g, p, plays.congr rfl rfl⟩
  inPlay := ⟨ready.inPlay.session, ready.inPlay.waiting⟩
  arriving := ready.arriving
  inside := ready.inside
  steps := ready.steps

end Stage

/-! ## Directors -/

namespace Director

theorem handle_ready {d : Director} (owns : d.Owns P) {s : Stage Console} (ready : s.Ready P)
    (c : Command) : (d.handle s c).stage.Ready P := by
  rw [d.handle_eq s c]
  exact Stage.actAll_ready ready (d.commandActs_plain c) (commandActs_starts owns c)

theorem boundaries_ready {d : Director} (owns : d.Owns P) {s : Stage Console} (ready : s.Ready P)
    (day : NewDay) : (d.boundaries day s).stage.Ready P := by
  rw [d.boundaries_eq_actAll day s]
  exact Stage.actAll_ready ready (boundaryActs_all d.commandActs_plain day)
    (boundaryActs_all (commandActs_starts owns) day)

theorem announce_ready {d : Director} (owns : d.Owns P) {s : Stage Console} (ready : s.Ready P)
    (day : NewDay) : (d.announce day s).stage.Ready P :=
  handle_ready owns (boundaries_ready owns ready day) (.dayPassed day.date)

theorem fresh_ready (d : Director) (entropy : Generator) {console : Console}
    (inside : console.offCalendar = false) :
    (Stage.mk (d.interpreter entropy) console).Ready P where
  tidy := d.fresh_tidy entropy console
  inPlay := Stage.inPlay_of_idle ⟨rfl, rfl⟩ fun _ mem => absurd mem List.not_mem_nil
  arriving := Stage.arriving_of_idle ⟨rfl, rfl⟩
  inside := inside
  steps := Nat.lt_of_lt_of_le Nat.one_pos (Nat.le_max_right _ _)

end Director

/-! ## Games -/

namespace Game

/-- The end of the time skip is there to be taken, so the session goes on. -/
theorem resume_eq_skipEnded {g : Game} (arriving : g.stage.Arriving) {id : NodeId}
    (phase : g.stage.interpreter.phase = .paused (.timeAdvance id)) :
    g.resume = g.after (Stage.skipEnded ⟨g.stage.interpreter, g.console.takeArrival.2⟩) := by
  have advancing : g.console.advancing = true := arriving id phase
  rw [resume_eq, if_pos advancing]

theorem resume_ready {g : Game} (ready : g.stage.Ready P) {id : NodeId}
    (phase : g.stage.interpreter.phase = .paused (.timeAdvance id)) :
    g.resume.game.stage.Ready P := by
  rw [resume_eq_skipEnded ready.arriving phase]
  let arrived : Stage Console := ⟨g.stage.interpreter, g.console.takeArrival.2⟩
  have coherent : arrived.interpreter.Coherent := ready.tidy.coherent
  have own : (Act.serve .skipEnded : Act Console).Own := fun _ => rfl
  have starts : (Act.serve .skipEnded : Act Console).Starts P := by
    intro g id category opens
    cases opens
  have resumed : arrived.skipEnded = .still (arrived.continueThrough id usualOutlet) := by
    simp only [Stage.skipEnded, arrived, phase]
  constructor
  · exact Stage.act_tidy ⟨coherent, ready.tidy.ordered, ready.tidy.resolved⟩ own
  · exact Stage.act_inPlay coherent ⟨ready.inPlay.session, ready.inPlay.waiting⟩ own starts
  · intro id' paused
    have paused : arrived.skipEnded.stage.interpreter.phase = .paused (.timeAdvance id') := paused
    rw [resumed] at paused
    unfold Stage.continueThrough Stage.modify at paused
    dsimp only at paused
    split at paused
    · contradiction
    · contradiction
  · show arrived.skipEnded.stage.host.offCalendar = false
    rw [resumed]
    exact ready.inside
  · show 0 < (arrived.serve .skipEnded).stage.interpreter.settings.maxSteps
    rw [Stage.serve_settings coherent]
    exact ready.steps

theorem Steps.ready {g : Game} {m : Move} (h : g.Steps m) (owns : g.director.Owns P)
    (ready : g.stage.Ready P) : m.game.stage.Ready P := by
  cases h with
  | ticks phase move =>
    rw [move]
    exact Director.handle_ready owns ready (.tick frame)
  | @answers id choices choice rest phase move =>
    rw [move]
    exact Director.handle_ready owns ready (.choose choice)
  | arrives phase move =>
    rw [move]
    exact resume_ready ready phase
  | @announces day console idle alive pending move =>
    obtain ⟨-, -, rfl⟩ := Console.nextPending?_eq_some pending
    have changed : Stage.Ready P ⟨g.stage.interpreter, { g.console with announced := day.date }⟩ :=
      ready.change (fun advancing => advancing) ready.inside
    rw [move]
    exact Director.announce_ready owns changed day
  | waits idle alive pending tomorrow move =>
    obtain ⟨date, -, rfl⟩ := Option.map_eq_some_iff.1 tomorrow
    rw [move]
    exact ready.change (fun advancing => advancing) ready.inside

theorem Runs.ready {g g' : Game} {moves : List (Game × Move)} (run : g.Runs moves g')
    (owns : g.director.Owns P) (ready : g.stage.Ready P) : g'.stage.Ready P := by
  induction run with
  | nil => exact ready
  | @cons g g' m moves step rest ih =>
    have steps := step_cases ready.tidy.coherent step
    obtain ⟨-, -, -, -, same, -⟩ := steps.chronicle
    exact ih (same ▸ owns) (steps.ready owns ready)

theorem new_ready {d : Director} (owns : d.Owns P) (entropy : Generator) (start : Date)
    (player : Player) (limit : Nat) (input : List (Option String)) :
    (new d (d.interpreter entropy) (.new start player) limit input).game.stage.Ready P :=
  Director.handle_ready owns (d.fresh_ready entropy rfl) .launch

end Game

/-! ## Wherever a director can come -/

/-- Where a director and its console can come to: from the beginning by the director's operations,
by the ends of sessions, by whatever happens to the subscribers, to the random numbers and to the
console, and by moves that play a session. Time skips are taken note of by these moves alone. -/
inductive Director.Reaches (d : Director) : Stage Console → Prop where
  | fresh (entropy : Generator) {console : Console} (inside : console.offCalendar = false) :
      Reaches d ⟨d.interpreter entropy, console⟩
  | handles {s : Stage Console} (before : Reaches d s) (c : Command) :
      Reaches d (d.handle s c).stage
  | finishes {s : Stage Console} (before : Reaches d s) : Reaches d s.finish.stage
  | listens {s : Stage Console} (before : Reaches d s) (f : Notifier → Notifier) :
      Reaches d (s.modify fun i => { i with notifier := f i.notifier })
  | draws {s : Stage Console} (before : Reaches d s) (generator : Generator) :
      Reaches d (s.modify fun i => { i with generator := generator })
  | changes {s : Stage Console} {console : Console} (before : Reaches d s)
      (later : s.host.advancing = true → console.advancing = true)
      (inside : console.offCalendar = false) : Reaches d { s with host := console }
  | plays {g : Game} {m : Game.Move} (before : Reaches d g.stage) (own : g.director = d)
      (active : g.stage.interpreter.isActive = true) (move : g.step = .ok m) :
      Reaches d m.game.stage

theorem Director.Reaches.ready {d : Director} (owns : d.Owns P) {s : Stage Console}
    (h : d.Reaches s) : s.Ready P := by
  induction h with
  | fresh entropy inside => exact d.fresh_ready entropy inside
  | handles before c ih => exact handle_ready owns ih c
  | finishes before ih =>
    exact Stage.act_ready ih (a := .serve .finish) ⟨fun _ => rfl, by simp⟩ nofun
  | listens before f ih =>
    exact Stage.act_ready ih (a := .serve (.listen f)) ⟨fun _ => rfl, by simp⟩ nofun
  | draws before generator ih => exact ih.draw generator
  | changes before later inside ih => exact ih.change later inside
  | plays before own active move ih =>
    subst own
    exact (Game.step_cases ih.tidy.coherent move).ready owns ih

end Storyline
