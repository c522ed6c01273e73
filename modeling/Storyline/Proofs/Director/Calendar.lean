import Storyline.Proofs.Director.Days
import Storyline.Proofs.Director.LateEvents

/-!
# The calendar under a director

Whatever a director and its console go through, a time skip moves today as far ahead as the calendar
goes, and prints as many days as come up for announcement. Only the clock comes to the end of the
calendar.

* `Director.Occurrence`: what a director and its console can go through.
* `Stage.pass_timeSkip`: what happens at a time skip.
* `Director.occurAll?_eq_none_iff`: what cannot happen, because the calendar ends.
* `Director.calendar_kept`: every time skip of a run.
-/

namespace Storyline

/-! ## Consoles -/

namespace Console

/-- The console has not left the calendar, nor announced a day ahead of today. -/
structure InCalendar (c : Console) : Prop where
  inside : c.offCalendar = false
  upTo : c.announced ≤ c.today

variable {c c' : Console}

theorem InCalendar.onward (h : c.InCalendar) (next : c.Onward c') : c'.InCalendar where
  inside := next.offCalendar.trans h.inside
  upTo := by
    rw [next.announced]
    exact Int.le_trans h.upTo next.today

theorem InCalendar.announced (h : c.InCalendar) : c.Announced c.announced [] where
  inside := h.inside
  since := Int.le_refl _
  upTo := h.upTo
  dates := (Date.span_self _).symm
  month := fun _ mem => absurd mem List.not_mem_nil
  year := fun _ mem => absurd mem List.not_mem_nil

/-- As many days are pending as today is ahead of the last announced one. -/
theorem InCalendar.length_drain (h : c.InCalendar) :
    (c.drain.1.length : Int) = c.today.day - c.announced.day := by
  have upTo : c.announced.day ≤ c.today.day := h.upTo
  obtain ⟨-, -, length⟩ := announced_drain h.announced
  omega

theorem InCalendar.nextPending?_eq_none_iff (h : c.InCalendar) :
    c.nextPending? = none ↔ c.announced = c.today := by
  rw [Console.nextPending?_eq_none_iff]
  constructor
  · intro back
    exact Date.le_antisymm h.upTo back
  · intro same
    rw [same]
    exact Int.le_refl _

theorem InCalendar.announce (h : c.InCalendar) {day : NewDay}
    (pending : c.nextPending? = some (day, c')) : c'.InCalendar := by
  have later := h.announced.announce pending
  exact ⟨later.inside, later.upTo⟩

theorem tomorrow?_eq_none_iff : c.tomorrow? = none ↔ c.today = Date.last := by
  rw [tomorrow?, Option.map_eq_none_iff, Date.next?_eq_none_iff]

end Console

/-! ## Visits -/

namespace Stage

theorem pass_timeSkip {H : Type} [Host H] {s : Stage H} {v : Visit} {unit : Period}
    {amount : UInt32} (visit : s.visit? = some v) (kind : v.node.kind = .timeSkip unit amount) :
    s.pass.events = Graph.skipEvents v.node.id unit amount (Host.today s.host) ∧
      s.pass.stage.host =
        Host.perform (.advance (Graph.skipDays unit amount (Host.today s.host))) s.host := by
  have events : s.pass.events = Graph.skipEvents v.node.id unit amount (Host.today s.host) := by
    obtain ⟨-, -, -, -, today⟩ := visit?_eq_some visit
    cases s.pass_passes with
    | rests _ visitless => simp [visitless] at visit
    | ends _ _ visitless => simp [visitless] at visit
    | @visits session v' playing current visit' turn =>
      obtain rfl := Option.some.inj (visit.symm.trans visit')
      rw [turn, Stage.visit, Turn.events_andThen, apply_events]
      simp only [Graph.effects, kind, today, follow, Turn.events_still, List.append_nil]
  refine ⟨events, ?_⟩
  rw [s.faithful_pass, events, ← calls_heard, Graph.heard_skipEvents]
  rfl

variable {s : Stage Console}

/-- A time skip moves today so many units ahead, or not at all if the calendar ends before. -/
theorem pass_timeSkip_host {v : Visit} {unit : Period} {amount : UInt32}
    (visit : s.visit? = some v) (kind : v.node.kind = .timeSkip unit amount) :
    let date := (unit.after? amount s.host.today).getD s.host.today
    s.pass.stage.host = { s.host with
      today := date
      advancing := true
      printed := s.host.printed.push (.advance (date.day - s.host.today.day) date) } := by
  rw [(pass_timeSkip visit kind).2]
  exact s.host.advance_skipDays unit amount

theorem skipOverflow_mem_pass_iff {H : Type} [Host H] {s : Stage H} {v : Visit} {unit : Period}
    {amount : UInt32} (visit : s.visit? = some v) (kind : v.node.kind = .timeSkip unit amount) :
    .notice (.skipOverflow v.node.id unit amount (Host.today s.host)) ∈ s.pass.events ↔
      unit.after? amount (Host.today s.host) = none := by
  rw [(pass_timeSkip visit kind).1]
  cases ahead : unit.after? amount (Host.today s.host) <;> simp [Graph.skipEvents, ahead]

theorem enters?_follows {H : Type} [Host H] {R : H → H → Prop} (follows : Host.Follows R)
    {s t : Stage H} {a : Act H} (h : s.enters? a = some t) : R s.host t.host := by
  cases a with
  | serve r => exact entrance?_follows follows h
  | startDue =>
    obtain ⟨x, -, entered⟩ := Option.bind_eq_some_iff.1 h
    have opened := entrance?_follows follows entered
    exact opened
  | _ => contradiction

end Stage

/-! ## Occurrences -/

namespace Director

/-- What a director and its console can go through. -/
inductive Occurrence where
  | command (command : Command)
  /-- The session is ended from outside. -/
  | finish
  /-- A day is announced, be it pending or not. -/
  | announce (day : NewDay)
  /-- The next pending day is asked for. -/
  | pending
  /-- The end of a time skip is asked for. -/
  | arrival
  /-- The clock moves on. -/
  | tomorrow

/-- The stage after an occurrence. There is none if the calendar does not have the next day. -/
def occur? (d : Director) (s : Stage Console) : Occurrence → Option (Stage Console)
  | .command c => some (d.handle s c).stage
  | .finish => some s.finish.stage
  | .announce day => some (d.announce day s).stage
  | .pending => some { s with host := s.host.nextPending?.elim s.host Prod.snd }
  | .arrival => some { s with host := s.host.takeArrival.2 }
  | .tomorrow => s.host.tomorrow?.map fun console => { s with host := console }

def occurAll? (d : Director) : Stage Console → List Occurrence → Option (Stage Console)
  | s, [] => some s
  | s, o :: os => (d.occur? s o).bind fun s => d.occurAll? s os

/-- What the director does in the course of an occurrence. -/
def occurrenceActs (d : Director) : Occurrence → List (Act Console)
  | .command c => d.commandActs c
  | .finish => [.serve .finish]
  | .announce day => d.announceActs day
  | _ => []

/-- A node is visited in the course of an occurrence, on the given stage. -/
def Visits (d : Director) (s : Stage Console) (o : Occurrence) (t : Stage Console) (v : Visit) :
    Prop :=
  ∃ before a after u n, d.occurrenceActs o = before ++ a :: after ∧
    (s.actAll before).stage.enters? a = some u ∧ n < u.interpreter.settings.maxSteps ∧
    t = (u.walk n).stage ∧ t.visit? = some v

variable {d : Director} {s t : Stage Console} {o : Occurrence}

theorem Visits.visit {v : Visit} (h : d.Visits s o t v) : t.visit? = some v := by
  obtain ⟨before, a, after, u, n, -, -, -, -, visit⟩ := h
  exact visit

theorem occurrenceActs_plain (d : Director) (o : Occurrence) :
    ∀ a ∈ d.occurrenceActs o, a.Plain := by
  cases o with
  | command c => exact d.commandActs_plain c
  | finish => exact List.forall_mem_singleton.2 ⟨fun _ => rfl, by simp⟩
  | announce day => exact d.announceActs_plain day
  | _ => exact fun a mem => absurd mem List.not_mem_nil

theorem occur?_inCalendar (kept : s.host.InCalendar) (h : d.occur? s o = some t) :
    t.host.InCalendar := by
  have acts (acts : List (Act Console)) (plain : ∀ a ∈ acts, a.Plain) :
      (s.actAll acts).stage.host.InCalendar :=
    kept.onward (Stage.actAll_follows Console.onward_follows plain s)
  cases o with
  | command c =>
    obtain rfl := Option.some.inj h
    rw [handle_eq]
    exact acts _ (d.commandActs_plain c)
  | finish =>
    obtain rfl := Option.some.inj h
    exact kept.onward (Stage.finish_steady Console.onward_follows.steady s)
  | announce day =>
    obtain rfl := Option.some.inj h
    rw [announce_eq_actAll]
    exact acts _ (d.announceActs_plain day)
  | pending =>
    obtain rfl := Option.some.inj h
    cases pending : s.host.nextPending? with
    | none => exact kept
    | some next => exact kept.announce pending
  | arrival =>
    obtain rfl := Option.some.inj h
    exact ⟨kept.inside, kept.upTo⟩
  | tomorrow =>
    obtain ⟨console, moved, rfl⟩ := Option.map_eq_some_iff.1 h
    exact kept.onward (Console.onward_tomorrow moved)

theorem occurAll?_inCalendar (kept : s.host.InCalendar) {os : List Occurrence}
    (h : d.occurAll? s os = some t) : t.host.InCalendar := by
  induction os generalizing s with
  | nil =>
    obtain rfl := Option.some.inj h
    exact kept
  | cons o os ih =>
    obtain ⟨next, now, later⟩ := Option.bind_eq_some_iff.1 h
    exact ih (occur?_inCalendar kept now) later

theorem occur?_eq_none_iff :
    d.occur? s o = none ↔ o = .tomorrow ∧ s.host.today = Date.last := by
  cases o with
  | tomorrow => simp [occur?, Console.tomorrow?_eq_none_iff]
  | _ => simp [occur?]

/-- The clock alone can fail to move on, and only on the last day of the calendar. -/
theorem occurAll?_eq_none_iff {os : List Occurrence} :
    d.occurAll? s os = none ↔ ∃ before after t, os = before ++ .tomorrow :: after ∧
      d.occurAll? s before = some t ∧ t.host.today = Date.last := by
  induction os generalizing s with
  | nil => simp [occurAll?]
  | cons o os ih =>
    cases now : d.occur? s o with
    | none =>
      obtain ⟨rfl, today⟩ := occur?_eq_none_iff.1 now
      simp only [occurAll?, now, Option.bind_none, true_iff]
      exact ⟨[], os, s, rfl, rfl, today⟩
    | some next =>
      rw [occurAll?, now, Option.bind_some, ih]
      constructor
      · rintro ⟨before, after, t, rfl, reached, today⟩
        exact ⟨o :: before, after, t, rfl, by simp [occurAll?, now, reached], today⟩
      · rintro ⟨before, after, t, split, reached, today⟩
        cases before with
        | nil =>
          -- the clock would have to stand on the last day, but it has moved on
          obtain ⟨rfl, rfl⟩ := List.cons.inj split
          obtain rfl := Option.some.inj reached
          rw [occur?_eq_none_iff.2 ⟨rfl, today⟩] at now
          contradiction
        | cons o' before =>
          obtain ⟨rfl, rfl⟩ := List.cons.inj split
          refine ⟨before, after, t, rfl, ?_, today⟩
          rwa [occurAll?, now, Option.bind_some] at reached

theorem Visits.inCalendar (kept : s.host.InCalendar) {v : Visit} (h : d.Visits s o t v) :
    t.host.InCalendar := by
  obtain ⟨before, a, after, u, n, split, entered, -, rfl, -⟩ := h
  have plain : ∀ a ∈ before, a.Plain := by
    intro a mem
    apply d.occurrenceActs_plain o
    rw [split]
    exact List.mem_append_left _ mem
  have acted := kept.onward (Stage.actAll_follows Console.onward_follows plain s)
  have inside := acted.onward (Stage.enters?_follows Console.onward_follows entered)
  exact inside.onward (Stage.walk_follows Console.onward_follows n u)

/-- In every run of a director and its console, whatever is played, the calendar is left neither by a
time skip nor by an announcement; only the clock cannot move on from the last day. Every time skip
moves today so many units ahead and prints how many more days are pending for it; if the calendar
ends before, these are none, and there is a warning. No other node moves today. -/
theorem calendar_kept (d : Director) (entropy : Generator) (start : Date) (player : Player)
    (os : List Occurrence) :
    let s₀ : Stage Console := ⟨d.interpreter entropy, .new start player⟩
    (d.occurAll? s₀ os = none ↔ ∃ before after s, os = before ++ .tomorrow :: after ∧
      d.occurAll? s₀ before = some s ∧ s.host.today = Date.last) ∧
    ∀ s, d.occurAll? s₀ os = some s →
      s.host.InCalendar ∧ (s.host.nextPending? = none ↔ s.host.announced = s.host.today) ∧
      ∀ o t v, d.Visits s o t v →
        t.host.InCalendar ∧ t.pass.stage.host.InCalendar ∧
        (∀ unit amount, v.node.kind = .timeSkip unit amount →
          let date := (unit.after? amount t.host.today).getD t.host.today
          let days := date.day - t.host.today.day
          t.pass.stage.host = { t.host with
            today := date
            advancing := true
            printed := t.host.printed.push (.advance days date) } ∧
          (t.pass.stage.host.drain.1.length : Int) = t.host.drain.1.length + days ∧
          (.notice (.skipOverflow v.node.id unit amount t.host.today) ∈ t.pass.events ↔
            unit.after? amount t.host.today = none)) ∧
        ((∀ unit amount, v.node.kind ≠ .timeSkip unit amount) →
          t.pass.stage.host.today = t.host.today) := by
  intro s₀
  refine ⟨occurAll?_eq_none_iff, ?_⟩
  intro s reached
  have kept : s.host.InCalendar := occurAll?_inCalendar ⟨rfl, Int.le_refl _⟩ reached
  refine ⟨kept, kept.nextPending?_eq_none_iff, ?_⟩
  intro o t v visits
  have before : t.host.InCalendar := visits.inCalendar kept
  have after : t.pass.stage.host.InCalendar :=
    before.onward (Stage.pass_follows Console.onward_follows t)
  have visit : t.visit? = some v := visits.visit
  refine ⟨before, after, ?_, ?_⟩
  · intro unit amount kind date days
    have host := Stage.pass_timeSkip_host visit kind
    refine ⟨host, ?_, Stage.skipOverflow_mem_pass_iff visit kind⟩
    rw [after.length_drain, before.length_drain, host]
    show date.day - t.host.announced.day = t.host.today.day - t.host.announced.day + days
    omega
  · intro other
    apply Stage.pass_steady Console.today_steady
    intro v' visit'
    obtain rfl := Option.some.inj (visit.symm.trans visit')
    exact other

/-- A wait of three days. -/
def wait : Graph where
  name := "wait"
  nodes := [⟨"start", .start "daily"⟩, ⟨"skip", .timeSkip .day 3⟩, ⟨"end", .final⟩]
  links := [⟨"start", "start", "skip"⟩, ⟨"skip", "output", "end"⟩]
  valid := Document.fault?_eq_none (by decide)

/-- On the last day of the calendar a wait lasts for no day, and the clock cannot move on. -/
theorem calendar_kept_wait :
    let d := (Director.new .default [wait]).1
    let s₀ : Stage Console := ⟨d.interpreter (.ofSeed 7), .new Date.last .initial⟩
    d.occurAll? s₀ [.tomorrow] = none ∧
      ∃ t v, d.Visits s₀ (.command (.start "wait")) t v ∧ v.node.kind = .timeSkip .day 3 ∧
        t.pass.stage.host.today = Date.last := by
  intro d s₀
  have ended := (calendar_kept d (.ofSeed 7) Date.last .initial [.tomorrow]).1
  refine ⟨ended.2 ⟨[], [], s₀, rfl, rfl, rfl⟩, ?_⟩
  let u := (s₀.opening (.at wait "start" "daily")).stage
  let v : Visit := ⟨⟨"skip", .timeSkip .day 3⟩, "daily", Date.last⟩
  have visit : (u.walk 1).stage.visit? = some v := rfl
  have visits : d.Visits s₀ (.command (.start "wait")) (u.walk 1).stage v :=
    ⟨[], .serve (.start wait), [], u, 1, rfl, rfl, by decide, rfl, visit⟩
  obtain ⟨-, kept⟩ := calendar_kept d (.ofSeed 7) Date.last .initial []
  obtain ⟨-, -, skips⟩ := kept s₀ rfl
  obtain ⟨-, -, skip, -⟩ := skips _ _ v visits
  obtain ⟨host, -⟩ := skip .day 3 rfl
  refine ⟨_, v, visits, rfl, ?_⟩
  rw [host]
  rfl

end Director

end Storyline
