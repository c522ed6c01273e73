import Storyline.Proofs.Director.Calendar
import Storyline.Proofs.Game.Reach
import Storyline.Proofs.Interpreter.Skips

/-!
# Ends of time skips

A console notes the end of a time skip when it makes it, and the session is told of the end once the
note is taken. If it is asked for only while a session waits for it, there is a note exactly as long
as one waits.

* `Director.Attends`: what a director and its console go through, asking for ends only when due.
* `Stage.Alert`: the console has noted an end exactly if the session waits for one.
* `Director.ends_exact`: so it is wherever they come, and every end finds the session that waits.
-/

namespace Storyline

/-! ## Consoles -/

namespace Console

theorem advancing_steady : Host.Steady fun c c' : Console => c'.advancing = c.advancing where
  refl c := rfl
  trans h h' := h'.trans h
  call {call} c other := by
    cases call with
    | advance days => exact absurd rfl (other days)
    | _ => rfl

/-- An end is noted if it has been before, or if a time skip is made. -/
theorem advancing_performAll_iff {c : Console} {calls : List Call}
    (inside : (Host.performAll c calls).offCalendar = false) :
    (Host.performAll c calls).advancing = true ↔
      c.advancing = true ∨ 0 < calls.countP Call.isAdvance := by
  by_cases made : ∃ days, .advance days ∈ calls
  · obtain ⟨days, mem⟩ := made
    have counted : 0 < calls.countP Call.isAdvance := List.countP_pos_iff.2 ⟨_, mem, rfl⟩
    simp only [advancing_of_mem mem inside, counted, or_true]
  · have still : ∀ days, .advance days ∉ calls := fun days mem => made ⟨days, mem⟩
    have none : calls.countP Call.isAdvance = 0 := by
      apply List.countP_eq_zero.2
      intro call mem
      cases call with
      | advance days => exact absurd mem (still days)
      | _ => simp [Call.isAdvance]
    rw [advancing_steady.performAll still c, none]
    simp

end Console

namespace Stage

/-! ## Turns -/

/-- The console has gone through the calls of the turn, and the time skips among them are those
whose end is newly waited for. -/
structure Balanced (s : Stage Console) (t : Turn Console) : Prop where
  faithful : s.Faithful t
  awaited : t.stage.interpreter.phase.awaited =
    s.interpreter.phase.awaited + advances t.events

/-- An end has been noted exactly if the session waits for one. -/
structure Alert (s : Stage Console) : Prop where
  coherent : s.interpreter.Coherent
  kept : s.host.InCalendar
  noted : s.host.advancing = true ↔ s.interpreter.phase.awaited = 1

theorem balanced_still (s : Stage Console) : s.Balanced (.still s) := ⟨s.faithful_still, rfl⟩

theorem Balanced.andThen {s : Stage Console} {t : Turn Console} {f : Stage Console → Turn Console}
    (h : s.Balanced t) (next : t.stage.Balanced (f t.stage)) : s.Balanced (t.andThen f) where
  faithful := h.faithful.andThen next.faithful
  awaited := by
    rw [Turn.stage_andThen, next.awaited, h.awaited, Turn.events_andThen, advances_append,
      Nat.add_assoc]

theorem Alert.turn {s : Stage Console} {t : Turn Console} (alert : s.Alert) (turn : s.Balanced t)
    (coherent : t.stage.interpreter.Coherent) (kept : t.stage.host.InCalendar) :
    t.stage.Alert where
  coherent := coherent
  kept := kept
  noted := by
    have inside := kept.inside
    rw [turn.faithful] at inside ⊢
    have before := s.interpreter.phase.awaited_le
    have after := t.stage.interpreter.phase.awaited_le
    rw [turn.awaited] at after ⊢
    rw [Console.advancing_performAll_iff inside, alert.noted]
    show _ ∨ 0 < advances t.events ↔ _
    omega

end Stage

/-! ## Acts -/

/-- The act does not end what a session waits for. -/
def Act.Patient {H : Type} : Act H → Prop
  | .serve r => r ≠ .skipEnded ∧ r ≠ .finish
  | _ => True

namespace Stage

theorem act_balanced {s : Stage Console} (coherent : s.interpreter.Coherent) {a : Act Console}
    (plain : a.Plain) (patient : a.Patient) : s.Balanced (s.act a) := by
  cases a with
  | tell n => exact ⟨s.faithful_tell n, rfl⟩
  | call c =>
    refine ⟨s.faithful_call c, ?_⟩
    have direct : c.isDirect = true := plain
    cases c with
    | advance days => contradiction
    | _ => rfl
  | serve r => exact ⟨serve_faithful plain.2, serve_balance coherent patient.1 patient.2⟩
  | startDue =>
    rcases Director.startDue_cases s with still | ⟨inactive, due, c, rest, -, starts⟩
    · rw [act, still]
      exact s.balanced_still
    · have idle : (s.withAgenda rest).interpreter.Coherent :=
        .inl (coherent.idle_of_inactive inactive)
      refine ⟨Director.faithful_startDue s, ?_⟩
      rw [act, starts]
      exact serve_balance idle (by simp) (by simp)

theorem actAll_coherent {s : Stage Console} (coherent : s.interpreter.Coherent)
    (acts : List (Act Console)) : (s.actAll acts).stage.interpreter.Coherent := by
  induction acts generalizing s with
  | nil => exact coherent
  | cons a acts ih => exact ih (act_coherent coherent a)

theorem actAll_balanced {s : Stage Console} (coherent : s.interpreter.Coherent)
    {acts : List (Act Console)} (plain : ∀ a ∈ acts, a.Plain) (patient : ∀ a ∈ acts, a.Patient) :
    s.Balanced (s.actAll acts) := by
  induction acts generalizing s with
  | nil => exact s.balanced_still
  | cons a acts ih =>
    obtain ⟨plain, plain'⟩ := List.forall_mem_cons.1 plain
    obtain ⟨patient, patient'⟩ := List.forall_mem_cons.1 patient
    exact (act_balanced coherent plain patient).andThen
      (ih (act_coherent coherent a) plain' patient')

theorem actAll_alert {s : Stage Console} (alert : s.Alert) {acts : List (Act Console)}
    (plain : ∀ a ∈ acts, a.Plain) (patient : ∀ a ∈ acts, a.Patient) :
    (s.actAll acts).stage.Alert :=
  alert.turn (actAll_balanced alert.coherent plain patient) (actAll_coherent alert.coherent acts)
    (alert.kept.onward (actAll_follows Console.onward_follows plain s))

/-! ## Visits -/

/-- Where the walk is entered, a session goes on or begins, and no end is noted or taken. -/
theorem entrance?_before {s u : Stage Console} (coherent : s.interpreter.Coherent)
    {r : Request Console} (h : s.entrance? r = some u) :
    s.interpreter.phase.awaited = 0 ∧ u.host.advancing = s.host.advancing ∧
      u.interpreter.Settled ∧ ∃ g category next, u.interpreter.Plays g (.before category next) := by
  rcases entrance?_eq_some h with ⟨inactive, g, id, category, opens, rfl⟩ | ⟨elapsed, rfl, due⟩
  · have idle := coherent.idle_of_inactive inactive
    exact ⟨idle.awaited, rfl, s.opening_settled g id category, g, category, some id,
      s.opening_plays opens⟩
  · have host : u.host = s.host := by
      rcases settled?_eq_some due with rfl | ⟨session, -, rfl⟩ <;> rfl
    rcases coherent with idle | ⟨g, p, plays⟩
    · simp [settled?, idle.1] at due
    · obtain ⟨plays', settled, -⟩ := settled?_plays plays due
      cases id plays with
      | paused phase => simp [settled?, phase] at due
      | @running category next =>
        exact ⟨plays.awaited, by rw [host], settled, g, category, next, plays'⟩

theorem enters?_before {s u : Stage Console} (coherent : s.interpreter.Coherent)
    {a : Act Console} (h : s.enters? a = some u) :
    s.interpreter.phase.awaited = 0 ∧ u.host.advancing = s.host.advancing ∧
      u.interpreter.Settled ∧ ∃ g category next, u.interpreter.Plays g (.before category next) := by
  cases a with
  | serve r => exact entrance?_before coherent h
  | startDue =>
    obtain ⟨x, found, entered⟩ := Option.bind_eq_some_iff.1 h
    obtain ⟨inactive, -⟩ := takeDue?_of_due? found
    have idle : (s.withAgenda x.2).interpreter.Coherent :=
      .inl (coherent.idle_of_inactive inactive)
    exact entrance?_before (s := s.withAgenda x.2) idle entered
  | _ => contradiction

/-- While a session walks, no end is noted. -/
theorem advancing_of_walk {u : Stage Console} {g : Graph} {category : Category}
    {next : Option NodeId} (plays : u.interpreter.Plays g (.before category next))
    (settled : u.interpreter.Settled) (clear : u.host.advancing = false)
    {n : Nat} (running : (u.walk n).stage.interpreter.phase = .running) :
    (u.walk n).stage.host.advancing = false := by
  have balance := (walk_proceeds plays settled n).balance (u.arrival_notMem_walkLegs n)
  have none : advances (u.walk n).events = 0 := by
    rw [running] at balance
    exact (Nat.add_eq_zero_iff.1 balance.symm).2
  rw [u.faithful_walk n, ← clear]
  apply Console.advancing_steady.performAll
  intro days mem
  have counted : 0 < advances (u.walk n).events := List.countP_pos_iff.2 ⟨_, mem, rfl⟩
  omega

theorem running_of_visit? {H : Type} [Host H] {s : Stage H} {v : Visit}
    (visit : s.visit? = some v) : s.interpreter.phase = .running := by
  unfold visit? at visit
  split at visit
  · assumption
  · contradiction

end Stage

namespace Director

theorem commandActs_patient {H : Type} (d : Director) {c : Command} (early : c ≠ .skipEnded) :
    ∀ a ∈ (d.commandActs c : List (Act H)), a.Patient := by
  have one {a : Act H} (patient : a.Patient) : ∀ b ∈ [a], b.Patient :=
    List.forall_mem_singleton.2 patient
  have two {a b : Act H} (patient : a.Patient) (patient' : b.Patient) :
      ∀ c ∈ [a, b], c.Patient := List.forall_mem_cons.2 ⟨patient, one patient'⟩
  have starting (name : String) : (d.starting name : Act H).Patient := by
    unfold Director.starting
    cases d.library.find? name with
    | none => trivial
    | some g => exact ⟨by simp, by simp⟩
  cases c with
  | tick elapsed => exact two ⟨by simp, by simp⟩ trivial
  | choose choice => exact one ⟨by simp, by simp⟩
  | skipEnded => exact absurd rfl early
  | dayPassed date => exact two trivial trivial
  | monthPassed date => exact two trivial (starting _)
  | yearPassed date => exact two trivial ⟨by simp, by simp⟩
  | launch =>
    apply one
    unfold launching
    split
    · cases d.library.normal with
      | nil => trivial
      | cons name names => exact starting name
    · trivial
  | start name => exact one (starting name)
  | shutdown => exact one trivial

theorem handle_alert (d : Director) {s : Stage Console} (alert : s.Alert) {c : Command}
    (early : c ≠ .skipEnded) : (d.handle s c).stage.Alert := by
  rw [handle_eq]
  exact Stage.actAll_alert alert (d.commandActs_plain c) (d.commandActs_patient early)

theorem advances_handle (d : Director) {s : Stage Console} (alert : s.Alert) {c : Command}
    (early : c ≠ .skipEnded) :
    (d.handle s c).stage.interpreter.phase.awaited =
      s.interpreter.phase.awaited + advances (d.handle s c).events := by
  rw [handle_eq]
  exact (Stage.actAll_balanced alert.coherent (d.commandActs_plain c)
    (d.commandActs_patient early)).awaited

/-! ## What they go through -/

/-- What a director and its console go through from a stage on: its operations, days of the clock,
and subscribers. The console is asked for the end of a time skip only while a session waits for one,
and the session is told of the end at once if it has been noted. Given are what happens, how many
ends the sessions are told of, and the stage that is reached. -/
inductive Attends (d : Director) (s₀ : Stage Console) :
    List Event → Nat → Stage Console → Prop where
  | start : Attends d s₀ [] 0 s₀
  | handles {es : List Event} {ends : Nat} {s : Stage Console} (before : Attends d s₀ es ends s)
      (c : Command) (early : c ≠ .skipEnded) :
      Attends d s₀ (es ++ (d.handle s c).events) ends (d.handle s c).stage
  | listens {es : List Event} {ends : Nat} {s : Stage Console} (before : Attends d s₀ es ends s)
      (f : Notifier → Notifier) :
      Attends d s₀ es ends (s.modify fun i => { i with notifier := f i.notifier })
  | turns {es : List Event} {ends : Nat} {s : Stage Console} {day : NewDay} {console : Console}
      (before : Attends d s₀ es ends s) (pending : s.host.nextPending? = some (day, console)) :
      Attends d s₀ es ends ⟨s.interpreter, console⟩
  | waits {es : List Event} {ends : Nat} {s : Stage Console} {console : Console}
      (before : Attends d s₀ es ends s) (tomorrow : s.host.tomorrow? = some console) :
      Attends d s₀ es ends ⟨s.interpreter, console⟩
  | arrives {es : List Event} {ends : Nat} {s : Stage Console} {id : NodeId} {console : Console}
      (before : Attends d s₀ es ends s) (waiting : s.interpreter.phase = .paused (.timeAdvance id))
      (noted : s.host.takeArrival = (true, console)) :
      Attends d s₀ (es ++ (Stage.skipEnded ⟨s.interpreter, console⟩).events) (ends + 1)
        (Stage.skipEnded ⟨s.interpreter, console⟩).stage
  | asks {es : List Event} {ends : Nat} {s : Stage Console} {id : NodeId} {console : Console}
      (before : Attends d s₀ es ends s) (waiting : s.interpreter.phase = .paused (.timeAdvance id))
      (missing : s.host.takeArrival = (false, console)) :
      Attends d s₀ es ends ⟨s.interpreter, console⟩

end Director

namespace Stage

/-- A session that is told of the end for which it waits goes on. -/
theorem skipEnded_eq {s : Stage Console} {id : NodeId}
    (waiting : s.interpreter.phase = .paused (.timeAdvance id)) :
    s.skipEnded = .still (s.continueThrough id usualOutlet) := by
  simp only [skipEnded, waiting]

theorem continueThrough_running {s : Stage Console} (coherent : s.interpreter.Coherent)
    {id : NodeId} (waiting : s.interpreter.phase = .paused (.timeAdvance id)) :
    (s.continueThrough id usualOutlet).interpreter.phase = .running := by
  rcases coherent with idle | ⟨g, p, plays⟩
  · rw [idle.1] at waiting
    contradiction
  · obtain ⟨session, playing, -⟩ := Option.map_eq_some_iff.1 plays.category?
    rw [continueThrough_interpreter playing]

/-- What is noted is used up by the session that has waited for it. -/
theorem Alert.arrive {s : Stage Console} (alert : s.Alert) {id : NodeId} {noted : Bool}
    {console : Console} (waiting : s.interpreter.phase = .paused (.timeAdvance id))
    (taken : s.host.takeArrival = (noted, console)) :
    let t := Stage.skipEnded ⟨s.interpreter, console⟩
    t.stage.Alert ∧ t.stage.interpreter.phase = .running ∧ t.stage.host.advancing = false ∧
      t.events = [] := by
  obtain ⟨-, rfl⟩ := Prod.mk.inj taken
  let arrived : Stage Console := ⟨s.interpreter, s.host.takeArrival.2⟩
  have running := continueThrough_running (s := arrived) alert.coherent waiting
  have coherent : arrived.skipEnded.stage.interpreter.Coherent :=
    (serves (s := arrived) alert.coherent .skipEnded).coherent
  show arrived.skipEnded.stage.Alert ∧ arrived.skipEnded.stage.interpreter.phase = .running ∧
    arrived.skipEnded.stage.host.advancing = false ∧ arrived.skipEnded.events = []
  rw [skipEnded_eq (s := arrived) waiting] at coherent ⊢
  refine ⟨⟨coherent, ⟨alert.kept.inside, alert.kept.upTo⟩, ?_⟩, running, rfl, rfl⟩
  rw [Turn.stage_still, running]
  exact ⟨nofun, nofun⟩

end Stage

namespace Director

variable {d : Director} {es : List Event} {ends : Nat} {s₀ s : Stage Console}

theorem Attends.alert (h : d.Attends s₀ es ends s) (first : s₀.Alert) : s.Alert := by
  induction h with
  | start => exact first
  | handles before c early ih => exact d.handle_alert ih early
  | @listens es ends s before f ih =>
    have coherent := (Stage.serves ih.coherent (.listen f)).coherent
    exact ⟨coherent, ih.kept, ih.noted⟩
  | turns before pending ih =>
    refine ⟨ih.coherent, ih.kept.announce pending, ?_⟩
    obtain ⟨-, -, rfl⟩ := Console.nextPending?_eq_some pending
    exact ih.noted
  | waits before tomorrow ih =>
    refine ⟨ih.coherent, ih.kept.onward (Console.onward_tomorrow tomorrow), ?_⟩
    obtain ⟨date, -, rfl⟩ := Option.map_eq_some_iff.1 tomorrow
    exact ih.noted
  | arrives before waiting noted ih =>
    exact (ih.arrive waiting noted).1
  | asks before waiting missing ih =>
    -- the end has been noted
    have noted := ih.noted.2 (Phase.awaited_eq_one.2 ⟨_, waiting⟩)
    obtain ⟨missing, -⟩ := Prod.mk.inj missing
    rw [noted] at missing
    contradiction

/-- All time skips have come to their end, but for the one whose end is waited for. -/
theorem Attends.ends_eq (h : d.Attends s₀ es ends s) (first : s₀.Alert)
    (resting : s₀.interpreter.phase.awaited = 0) :
    advances es = ends + s.interpreter.phase.awaited := by
  induction h with
  | start => rw [resting, advances_nil]
  | handles before c early ih =>
    rw [advances_append, ih, d.advances_handle (before.alert first) early, Nat.add_assoc]
  | listens before f ih => exact ih
  | turns before pending ih => exact ih
  | waits before tomorrow ih => exact ih
  | @arrives es ends s id console before waiting noted ih =>
    obtain ⟨-, running, -, silent⟩ := (before.alert first).arrive waiting noted
    rw [silent, List.append_nil, ih, running, Phase.awaited_eq_one.2 ⟨id, waiting⟩]
    rfl
  | asks before waiting missing ih => exact ih

theorem Attends.announces (h : d.Attends s₀ es ends s) (day : NewDay) :
    ∃ es, d.Attends s₀ es ends (d.announce day s).stage := by
  have year : ∃ es, d.Attends s₀ es ends
      (if day.newYear then yearPassed day.date s else .still s).stage := by
    split
    · exact ⟨_, h.handles (.yearPassed day.date) (by simp)⟩
    · exact ⟨_, h⟩
  obtain ⟨_, year⟩ := year
  have month {s : Stage Console} {es : List Event} (h : d.Attends s₀ es ends s) :
      ∃ es, d.Attends s₀ es ends (if day.newMonth then d.monthPassed s else .still s).stage := by
    split
    · exact ⟨_, h.handles (.monthPassed day.date) (by simp)⟩
    · exact ⟨_, h⟩
  obtain ⟨_, month⟩ := month year
  exact ⟨_, month.handles (.dayPassed day.date) (by simp)⟩

/-- At every node, no end is left over from before, and one is noted exactly at time skips. -/
theorem visits_clear {c : Command} {t : Stage Console} {v : Visit} (alert : s.Alert)
    (visits : d.Visits s (.command c) t v) :
    t.host.advancing = false ∧
      (t.pass.stage.host.advancing = true ↔
        ∃ unit amount, v.node.kind = .timeSkip unit amount) := by
  obtain ⟨before, a, after, u, n, split, entered, -, rfl, visit⟩ := visits
  have early : c ≠ .skipEnded := by
    rintro rfl
    cases before with
    | nil =>
      obtain ⟨rfl, -⟩ := List.cons.inj split
      contradiction
    | cons b before => simpa using (List.cons.inj split).2
  have acts : ∀ b ∈ before, b ∈ (d.commandActs c : List (Act Console)) := by
    intro b mem
    rw [show d.commandActs c = _ from split]
    exact List.mem_append_left _ mem
  have acted := Stage.actAll_alert alert (fun b mem => d.commandActs_plain c b (acts b mem))
    (fun b mem => d.commandActs_patient early b (acts b mem))
  obtain ⟨resting, host, settled, g, category, next, plays⟩ :=
    Stage.enters?_before acted.coherent entered
  have clear : u.host.advancing = false := by
    rw [host, ← Bool.not_eq_true, acted.noted, resting]
    decide
  have walked := Stage.advancing_of_walk plays settled clear (Stage.running_of_visit? visit)
  refine ⟨walked, ?_⟩
  by_cases skip : ∃ unit amount, v.node.kind = .timeSkip unit amount
  · obtain ⟨unit, amount, kind⟩ := skip
    rw [Stage.pass_timeSkip_host visit kind]
    exact ⟨fun _ => ⟨unit, amount, kind⟩, fun _ => rfl⟩
  · have same : (u.walk n).stage.pass.stage.host.advancing = (u.walk n).stage.host.advancing := by
      apply Stage.pass_steady Console.advancing_steady
      intro v' visit' unit amount kind
      obtain rfl := Option.some.inj (visit.symm.trans visit')
      exact skip ⟨unit, amount, kind⟩
    rw [same, walked]
    simp only [Bool.false_eq_true, false_iff]
    exact skip

end Director

/-! ## Games -/

namespace Game

variable {d : Director} {es : List Event} {ends : Nat} {s₀ : Stage Console} {g g' : Game}

/-- A game is one of the ways in which its director and its console can go on. -/
theorem Steps.attends {m : Move} (h : g.Steps m) (own : g.director = d)
    (before : d.Attends s₀ es ends g.stage) : ∃ es ends, d.Attends s₀ es ends m.game.stage := by
  subst own
  cases h with
  | ticks phase move =>
    rw [move]
    exact ⟨_, _, before.handles (.tick frame) (by simp)⟩
  | @answers id choices choice rest phase move =>
    rw [move]
    exact ⟨_, _, before.handles (.choose choice) (by simp)⟩
  | arrives phase move =>
    rw [move, resume_eq]
    split
    · rename_i noted
      exact ⟨_, _, before.arrives phase (Prod.ext noted rfl)⟩
    · rename_i missing
      exact ⟨_, _, before.asks phase (Prod.ext (Bool.not_eq_true _ ▸ missing) rfl)⟩
  | @announces day console idle alive pending move =>
    obtain ⟨_, announced⟩ := (before.turns pending).announces day
    rw [move]
    exact ⟨_, _, announced⟩
  | waits idle alive pending tomorrow move =>
    rw [move]
    exact ⟨_, _, before.waits tomorrow⟩

theorem Runs.attends {moves : List (Game × Move)} (run : g.Runs moves g') (first : s₀.Alert)
    (own : g.director = d) (before : d.Attends s₀ es ends g.stage) :
    ∃ es ends, d.Attends s₀ es ends g'.stage := by
  induction run generalizing es ends with
  | nil => exact ⟨es, ends, before⟩
  | cons step rest ih =>
    have steps := step_cases (before.alert first).coherent step
    obtain ⟨_, _, next⟩ := steps.attends own before
    obtain ⟨_, _, _, _, same, _⟩ := steps.chronicle
    exact ih (same.trans own) next

/-- A game that waits for the end of a time skip goes on in its next move. -/
theorem step_of_awaited (alert : g.stage.Alert) {id : NodeId}
    (waiting : g.stage.interpreter.phase = .paused (.timeAdvance id)) :
    ∃ m, g.step = .ok m ∧ m.game.stage.interpreter.phase = .running ∧
      m.game.console.advancing = false := by
  have arriving : g.stage.Arriving := fun id' phase =>
    alert.noted.2 (Phase.awaited_eq_one.2 ⟨id', phase⟩)
  have active : g.stage.interpreter.isActive = true := by
    rcases alert.coherent with idle | ⟨graph, p, plays⟩
    · rw [idle.1] at waiting
      contradiction
    · exact plays.isActive
  have step : g.step = .ok g.resume := by
    simp only [Game.step, Game.console, alert.kept.inside, active, waiting, if_true,
      Bool.false_eq_true, if_false]
  obtain ⟨-, running, clear, -⟩ := alert.arrive waiting (Prod.ext rfl rfl)
  refine ⟨g.resume, step, ?_⟩
  rw [resume_eq_skipEnded arriving waiting]
  exact ⟨running, clear⟩

end Game

/-- However long a director and a fresh console go on, over whatever graphs, the console has noted
the end of a time skip exactly while a session waits for one. As many ends have been passed on as
time skips have been made, but for the one that is waited for; no end is left over at any node; and
a game that waits for an end passes it on in its next move. All games go on in this way. -/
theorem Director.ends_exact (d : Director) (entropy : Generator) (start : Date) (player : Player) :
    let s₀ : Stage Console := ⟨d.interpreter entropy, .new start player⟩
    (∀ es ends s, d.Attends s₀ es ends s →
      (s.host.advancing = true ↔ ∃ id, s.interpreter.phase = .paused (.timeAdvance id)) ∧
      advances es = ends + s.interpreter.phase.awaited ∧
      (∀ c t v, d.Visits s (.command c) t v → t.host.advancing = false ∧
        (t.pass.stage.host.advancing = true ↔
          ∃ unit amount, v.node.kind = .timeSkip unit amount)) ∧
      ∀ g : Game, g.stage = s → ∀ id, s.interpreter.phase = .paused (.timeAdvance id) →
        ∃ m, g.step = .ok m ∧ m.game.stage.interpreter.phase = .running ∧
          m.game.console.advancing = false) ∧
    ∀ limit input moves g,
      (Game.new d (d.interpreter entropy) (.new start player) limit input).game.Runs moves g →
        ∃ es ends, d.Attends s₀ es ends g.stage := by
  intro s₀
  have first : s₀.Alert := ⟨.inl ⟨rfl, rfl⟩, ⟨rfl, Int.le_refl _⟩, ⟨nofun, nofun⟩⟩
  constructor
  · intro es ends s attends
    have alert := attends.alert first
    refine ⟨alert.noted.trans Phase.awaited_eq_one, attends.ends_eq first rfl, ?_, ?_⟩
    · exact fun c t v => visits_clear alert
    · rintro g rfl id waiting
      exact Game.step_of_awaited alert waiting
  · intro limit input moves g run
    exact run.attends first rfl (Attends.start.handles .launch (by simp))

/-- A wait of three days lasts until its end is asked for, and not longer. -/
theorem Director.ends_exact_wait :
    let d := (Director.new .default [wait]).1
    let start : Date := ⟨738886, by decide, by decide⟩
    let s₀ : Stage Console := ⟨d.interpreter (.ofSeed 7), .new start .initial⟩
    let s := (d.handle s₀ (.start "wait")).stage
    s.host.advancing = true ∧
      ∃ m, (⟨d, s, [], 0, 3⟩ : Game).step = .ok m ∧ m.game.console.advancing = false := by
  intro d start s₀ s
  have attends : d.Attends s₀ ([] ++ (d.handle s₀ (.start "wait")).events) 0 s :=
    .handles .start _ (by simp)
  have waiting : s.interpreter.phase = .paused (.timeAdvance "skip") := by decide +kernel
  obtain ⟨noted, -, -, passes⟩ := (Director.ends_exact d (.ofSeed 7) start .initial).1 _ _ _ attends
  obtain ⟨m, step, -, clear⟩ := passes ⟨d, s, [], 0, 3⟩ rfl "skip" waiting
  exact ⟨noted.2 ⟨"skip", waiting⟩, m, step, clear⟩

end Storyline
