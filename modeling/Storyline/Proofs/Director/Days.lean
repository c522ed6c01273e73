import Storyline.Proofs.Console.Clock
import Storyline.Proofs.Director.Operation
import Storyline.Proofs.Interpreter.Speech

/-!
# Days of a director

Whatever is played meanwhile, a director deducts once for every day that is announced, credits once
for every month that begins and asks for the end of the game once for every year.

* `Director.Chronicle`: what a director and its console go through.
* `Director.days_reported_once`: every day is announced and reported once.
-/

namespace Storyline

/-! ## Reports -/

/-- What a director does about a day that begins. -/
inductive Report where
  | endRequest
  | credit
  | deduct
  deriving DecidableEq, Repr

def Act.report? {H : Type} : Act H → Option Report
  | .call .deductDaily => some .deduct
  | .call .creditMonthly => some .credit
  | .serve .requestEnd => some .endRequest
  | _ => none

/-- The report that an event is. An end of the game is requested of the interpreter, not of the
host. -/
def Event.report? : Event → Option Report
  | .call .deductDaily => some .deduct
  | .call .creditMonthly => some .credit
  | _ => none

/-- The command tells the director that the calendar has moved. -/
def Command.tellsDay : Command → Bool
  | .dayPassed _ | .monthPassed _ | .yearPassed _ => true
  | _ => false

def NewDay.reports (day : NewDay) : List Report :=
  (if day.newYear then [.endRequest] else []) ++ (if day.newMonth then [.credit] else []) ++
    [.deduct]

namespace Date

def FirstOfYear (date : Date) : Prop := date.month = 1 ∧ date.dayOfMonth = 1

instance (date : Date) : Decidable date.FirstOfYear := inferInstanceAs (Decidable (_ ∧ _))

def reports (date : Date) : List Report :=
  (if date.FirstOfYear then [.endRequest] else []) ++
    (if date.dayOfMonth = 1 then [.credit] else []) ++ [.deduct]

theorem count_reports (dates : List Date) :
    (dates.flatMap reports).count .deduct = dates.length ∧
      (dates.flatMap reports).count .credit =
        (dates.filter fun date => date.dayOfMonth = 1).length ∧
      (dates.flatMap reports).count .endRequest =
        (dates.filter fun date => date.FirstOfYear).length := by
  induction dates with
  | nil => exact ⟨rfl, rfl, rfl⟩
  | cons date dates ih =>
    obtain ⟨deducted, credited, requested⟩ := ih
    have first : date.FirstOfYear → date.dayOfMonth = 1 := And.right
    by_cases year : date.FirstOfYear
    · simp [reports, year, first year, deducted, credited, requested]
    · by_cases month : date.dayOfMonth = 1
      · simp [reports, year, month, deducted, credited, requested]
      · simp [reports, year, month, deducted, credited, requested]

end Date

theorem Console.Announced.reports {start : Date} {days : List NewDay} {c : Console}
    (h : c.Announced start days) :
    days.flatMap NewDay.reports = (start.span c.announced).flatMap Date.reports := by
  rw [← h.dates, List.flatMap_map]
  apply List.flatMap_congr
  intro day mem
  have month : (day.newMonth = true) = (day.date.dayOfMonth = 1) := propext (h.month day mem)
  have year : (day.newYear = true) = day.date.FirstOfYear := propext (h.year day mem)
  simp only [NewDay.reports, Date.reports, month, year]

/-! ## Acts -/

namespace Stage

variable {H : Type} [Host H]

theorem serve_report {s : Stage H} (coherent : s.interpreter.Coherent) (r : Request H) :
    (s.serve r).events.filterMap Event.report? = [] := by
  -- What marks a day is called by the director, so neither a node nor a session's end reports.
  obtain ⟨rest, played, events⟩ := serve_played coherent r
  have quiet : rest.filterMap Event.report? = [] := by
    apply List.filterMap_eq_nil_iff.2
    intro e mem
    have played := played e mem
    unfold Event.report?
    split
    · contradiction
    · contradiction
    · rfl
  have opened : r.prologue.filterMap Event.report? = [] := by
    cases r with
    | start g =>
      obtain ⟨id, category, first⟩ := g.exists_start
      simp [Request.prologue, first, sessionOpening, Event.report?]
    | _ => simp [Request.prologue, sessionOpening, Event.report?]
  rw [events, List.filterMap_append, quiet, List.append_nil]
  split
  · exact opened
  · rfl

theorem startDue_report {s : Stage H} (coherent : s.interpreter.Coherent) :
    (Director.startDue s).events.filterMap Event.report? = [] := by
  rcases Director.startDue_cases s with still | ⟨inactive, due, c, rest, -, starts⟩
  · rw [still]
    rfl
  · have idle := coherent.idle_of_inactive inactive
    rw [starts]
    exact serve_report (s := s.modify fun i => { i with agenda := rest }) (.inl idle) _

theorem act_report {s : Stage H} (coherent : s.interpreter.Coherent) (a : Act H) :
    (s.act a).events.filterMap Event.report? =
      (a.report?.toList).filter fun report => report ≠ .endRequest := by
  cases a with
  | tell n => rfl
  | call c => cases c <;> rfl
  | serve r =>
    rw [act, serve_report coherent]
    cases r <;> rfl
  | startDue => exact startDue_report coherent

theorem actAll_report {s : Stage H} (coherent : s.interpreter.Coherent) (acts : List (Act H)) :
    (s.actAll acts).events.filterMap Event.report? =
      (acts.filterMap Act.report?).filter fun report => report ≠ .endRequest := by
  induction acts generalizing s with
  | nil => rfl
  | cons a acts ih =>
    -- An act reports at most once.
    have split : (a :: acts).filterMap Act.report? =
        a.report?.toList ++ acts.filterMap Act.report? := by
      cases report : a.report? <;> simp [report]
    rw [split, List.filter_append, ← ih (act_coherent coherent a), ← act_report coherent a]
    exact List.filterMap_append

theorem actAll_preserves {P : Stage H → Prop}
    (preserves : ∀ s a, Act.Plain a → P s → P (s.act a).stage) {acts : List (Act H)}
    (plain : ∀ a ∈ acts, a.Plain) {s : Stage H} (first : P s) : P (s.actAll acts).stage := by
  induction acts generalizing s with
  | nil => exact first
  | cons a acts ih =>
    obtain ⟨now, later⟩ := List.forall_mem_cons.1 plain
    exact ih later (preserves s a now first)

theorem act_follows {R : H → H → Prop} (follows : Host.Follows R) {a : Act H} (plain : a.Plain)
    (s : Stage H) : R s.host (s.act a).stage.host := by
  cases a with
  | tell n => exact follows.refl _
  | call c =>
    have direct : c.isDirect = true := plain
    apply follows.call s.host
    rintro days rfl
    contradiction
  | serve r => exact serve_follows follows s plain.2
  | startDue =>
    rcases Director.startDue_cases s with still | ⟨-, due, c, rest, -, starts⟩
    · rw [act, still]
      exact follows.refl _
    · rw [act, starts]
      exact serve_follows follows (s.modify fun i => { i with agenda := rest }) (by simp)

theorem actAll_follows {R : H → H → Prop} (follows : Host.Follows R) {acts : List (Act H)}
    (plain : ∀ a ∈ acts, a.Plain) (s : Stage H) : R s.host (s.actAll acts).stage.host := by
  apply actAll_preserves (P := fun t => R s.host t.host) _ plain (follows.refl _)
  intro t a now before
  exact follows.trans before (act_follows follows now t)

end Stage

namespace Director

/-! ## The acts of a day -/

/-- What a director does when a day begins. -/
def announceActs (d : Director) (day : NewDay) : List (Act Console) :=
  (if day.newYear then d.commandActs (.yearPassed day.date) else []) ++
    (if day.newMonth then d.commandActs (.monthPassed day.date) else []) ++
      d.commandActs (.dayPassed day.date)

/-- What it does about the year and the month that begin with a day. -/
def boundaryActs (d : Director) (day : NewDay) : List (Act Console) :=
  (if day.newYear then d.commandActs (.yearPassed day.date) else []) ++
    (if day.newMonth then d.commandActs (.monthPassed day.date) else [])

theorem announceActs_eq (d : Director) (day : NewDay) :
    d.announceActs day = d.boundaryActs day ++ d.commandActs (.dayPassed day.date) := rfl

theorem boundaries_eq_actAll (d : Director) (day : NewDay) (s : Stage Console) :
    d.boundaries day s = s.actAll (d.boundaryActs day) := by
  have year (s : Stage Console) : (if day.newYear then yearPassed day.date s else .still s) =
      s.actAll (if day.newYear then d.commandActs (.yearPassed day.date) else []) := by
    split
    · exact d.handle_eq s (.yearPassed day.date)
    · rfl
  have month (s : Stage Console) : (if day.newMonth then d.monthPassed s else .still s) =
      s.actAll (if day.newMonth then d.commandActs (.monthPassed day.date) else []) := by
    split
    · exact d.handle_eq s (.monthPassed day.date)
    · rfl
  rw [boundaryActs, Stage.actAll_append, ← year]
  exact Turn.andThen_congr (month _)

theorem announce_eq_actAll (d : Director) (day : NewDay) (s : Stage Console) :
    d.announce day s = s.actAll (d.announceActs day) := by
  rw [announceActs_eq, Stage.actAll_append, ← boundaries_eq_actAll, announce_eq]
  exact Turn.andThen_congr (d.handle_eq _ (.dayPassed day.date))

theorem boundaryActs_all {d : Director} {p : Act Console → Prop}
    (all : ∀ c, ∀ a ∈ d.commandActs c, p a) (day : NewDay) : ∀ a ∈ d.boundaryActs day, p a := by
  intro a mem
  rcases List.mem_append.1 mem with mem | mem
  · split at mem
    · exact all _ a mem
    · contradiction
  · split at mem
    · exact all _ a mem
    · contradiction

theorem announceActs_plain (d : Director) (day : NewDay) :
    ∀ a ∈ d.announceActs day, a.Plain := by
  rw [announceActs_eq]
  exact List.forall_mem_append.2
    ⟨boundaryActs_all d.commandActs_plain day, d.commandActs_plain _⟩

theorem starting_report {H : Type} (d : Director) (name : String) :
    (d.starting name : Act H).report? = none := by
  unfold starting
  cases d.library.find? name <;> rfl

theorem announceActs_report (d : Director) (day : NewDay) :
    (d.announceActs day).filterMap Act.report? = day.reports := by
  unfold announceActs NewDay.reports
  rw [List.filterMap_append, List.filterMap_append]
  congr
  · split <;> rfl
  · split
    · have credit : (Act.call .creditMonthly : Act Console).report? = some .credit := rfl
      simp [commandActs, starting_report, credit]
    · rfl

/-- What a director and its console go through: commands of any kind, other than about days, ends of
sessions, ends of time skips, days on which the clock moves on, and days that are announced. -/
inductive Chronicle (d : Director) (s₀ : Stage Console) :
    List NewDay → List (Act Console) → List Event → Stage Console → Prop where
  | nil : Chronicle d s₀ [] [] [] s₀
  | handles {days acts es s} (before : Chronicle d s₀ days acts es s) (c : Command)
      (timeless : c.tellsDay = false) :
      Chronicle d s₀ days (acts ++ d.commandActs c) (es ++ (d.handle s c).events)
        (d.handle s c).stage
  | finishes {days acts es s} (before : Chronicle d s₀ days acts es s) :
      Chronicle d s₀ days (acts ++ [.serve .finish]) (es ++ s.finish.events) s.finish.stage
  | arrives {days acts es s} (before : Chronicle d s₀ days acts es s) :
      Chronicle d s₀ days acts es { s with host := s.host.takeArrival.2 }
  | waits {days acts es s console} (before : Chronicle d s₀ days acts es s)
      (tomorrow : s.host.tomorrow? = some console) :
      Chronicle d s₀ days acts es { s with host := console }
  | announces {days acts es s day console} (before : Chronicle d s₀ days acts es s)
      (pending : s.host.nextPending? = some (day, console)) :
      Chronicle d s₀ (days ++ [day]) (acts ++ d.announceActs day)
        (es ++ (d.announce day { s with host := console }).events)
        (d.announce day { s with host := console }).stage

theorem commandActs_report (d : Director) {c : Command} (timeless : c.tellsDay = false) :
    (d.commandActs c : List (Act Console)).filterMap Act.report? = [] := by
  cases c with
  | launch =>
    have launching : (d.launching : Act Console).report? = none := by
      unfold launching
      split
      · cases d.library.normal with
        | nil => rfl
        | cons name names => exact d.starting_report name
      · rfl
    simp [commandActs, launching]
  | start name => simp [commandActs, starting_report]
  | dayPassed date => contradiction
  | monthPassed date => contradiction
  | yearPassed date => contradiction
  | _ => rfl

namespace Chronicle

variable {d : Director} {s₀ s : Stage Console} {days : List NewDay} {acts : List (Act Console)}
  {es : List Event}

theorem trans {days' : List NewDay} {acts' : List (Act Console)} {es' : List Event}
    {s' : Stage Console} (h : d.Chronicle s₀ days acts es s)
    (h' : d.Chronicle s days' acts' es' s') :
    d.Chronicle s₀ (days ++ days') (acts ++ acts') (es ++ es') s' := by
  induction h' with
  | nil =>
    rw [List.append_nil, List.append_nil, List.append_nil]
    exact h
  | handles before c timeless ih =>
    rw [← List.append_assoc acts, ← List.append_assoc es]
    exact ih.handles c timeless
  | finishes before ih =>
    rw [← List.append_assoc acts, ← List.append_assoc es]
    exact ih.finishes
  | arrives before ih => exact ih.arrives
  | waits before tomorrow ih => exact ih.waits tomorrow
  | announces before pending ih =>
    rw [← List.append_assoc days, ← List.append_assoc acts, ← List.append_assoc es]
    exact ih.announces pending

theorem preserves {P : Stage Console → Prop} (h : d.Chronicle s₀ days acts es s) (first : P s₀)
    (act : ∀ s a, Act.Plain a → P s → P (s.act a).stage)
    (turn : ∀ s today announced advancing, P s → P { s with
      host := { s.host with today := today, announced := announced, advancing := advancing } }) :
    P s := by
  induction h with
  | nil => exact first
  | handles before c timeless ih =>
    rw [handle_eq]
    exact Stage.actAll_preserves act (d.commandActs_plain c) ih
  | finishes before ih => exact act _ (.serve .finish) ⟨fun _ => rfl, by simp⟩ ih
  | @arrives days acts es s before ih => exact turn s s.host.today s.host.announced false ih
  | @waits days acts es s console before tomorrow ih =>
    obtain ⟨date, -, rfl⟩ := Option.map_eq_some_iff.1 tomorrow
    exact turn s date s.host.announced s.host.advancing ih
  | @announces days acts es s day console before pending ih =>
    obtain ⟨-, -, rfl⟩ := Console.nextPending?_eq_some pending
    rw [announce_eq_actAll]
    exact Stage.actAll_preserves act (d.announceActs_plain day)
      (turn s s.host.today day.date s.host.advancing ih)

theorem coherent (h : d.Chronicle s₀ days acts es s) (first : s₀.interpreter.Coherent) :
    s.interpreter.Coherent :=
  h.preserves (P := fun s => s.interpreter.Coherent) first
    (fun _ a _ coherent => Stage.act_coherent coherent a) (fun _ _ _ _ coherent => coherent)

theorem announced {start : Date} {days₀ : List NewDay} (h : d.Chronicle s₀ days acts es s)
    (first : s₀.host.Announced start days₀) : s.host.Announced start (days₀ ++ days) := by
  induction h with
  | nil =>
    rw [List.append_nil]
    exact first
  | handles before c timeless ih =>
    rw [handle_eq]
    exact ih.onward (Stage.actAll_follows Console.onward_follows (d.commandActs_plain c) _)
  | finishes before ih => exact ih.onward (Stage.finish_steady Console.onward_follows.steady _)
  | arrives before ih => exact ih.onward ⟨rfl, Int.le_refl _, rfl⟩
  | waits before tomorrow ih => exact ih.onward (Console.onward_tomorrow tomorrow)
  | @announces days acts es s day console before pending ih =>
    have plain := d.announceActs_plain day
    rw [announce_eq_actAll, ← List.append_assoc]
    exact (ih.announce pending).onward
      (Stage.actAll_follows Console.onward_follows plain { s with host := console })

theorem today_le (h : d.Chronicle s₀ days acts es s) : s₀.host.today ≤ s.host.today := by
  induction h with
  | nil => exact Int.le_refl _
  | @handles days acts es s before c timeless ih =>
    rw [handle_eq]
    have next := Stage.actAll_follows Console.onward_follows (d.commandActs_plain c) s
    exact Int.le_trans ih next.today
  | finishes before ih =>
    exact Int.le_trans ih (Stage.finish_steady Console.onward_follows.steady _).today
  | arrives before ih => exact ih
  | waits before tomorrow ih => exact Int.le_trans ih (Console.onward_tomorrow tomorrow).today
  | @announces days acts es s day console before pending ih =>
    obtain ⟨-, -, rfl⟩ := Console.nextPending?_eq_some pending
    have next := Stage.actAll_follows Console.onward_follows (d.announceActs_plain day)
      { s with host := { s.host with announced := day.date } }
    rw [announce_eq_actAll]
    exact Int.le_trans ih next.today

theorem acts_report (h : d.Chronicle s₀ days acts es s) :
    acts.filterMap Act.report? = days.flatMap NewDay.reports := by
  induction h with
  | nil => rfl
  | handles before c timeless ih =>
    rw [List.filterMap_append, ih, d.commandActs_report timeless, List.append_nil]
  | finishes before ih =>
    rw [List.filterMap_append, ih]
    exact List.append_nil _
  | arrives before ih => exact ih
  | waits before tomorrow ih => exact ih
  | announces before pending ih =>
    rw [List.filterMap_append, ih, announceActs_report, List.flatMap_append, List.flatMap_singleton]

theorem events_report (h : d.Chronicle s₀ days acts es s) (first : s₀.interpreter.Coherent) :
    es.filterMap Event.report? =
      (acts.filterMap Act.report?).filter fun report => report ≠ .endRequest := by
  induction h with
  | nil => rfl
  | handles before c timeless ih =>
    rw [List.filterMap_append, List.filterMap_append, List.filter_append, ih, handle_eq,
      Stage.actAll_report (before.coherent first)]
  | finishes before ih =>
    have quiet := Stage.serve_report (before.coherent first) .finish
    rw [List.filterMap_append, List.filterMap_append, List.filter_append, ih]
    exact congrArg _ quiet
  | arrives before ih => exact ih
  | waits before tomorrow ih => exact ih
  | @announces days acts es s day console before pending ih =>
    have announced := Stage.actAll_report (s := { s with host := console })
      (before.coherent first) (d.announceActs day)
    rw [List.filterMap_append, List.filterMap_append, List.filter_append, ih, announce_eq_actAll,
      announced]

end Chronicle

/-- However the clock of a console is moved, its days come out one by one from the day after the
start on, and so many are left as today is ahead. Whatever is played meanwhile, each that came out was
reported once, with the credit and the request that belong to it, and nothing else makes such
calls. -/
theorem days_reported_once (start : Date) (player : Player) :
    (∀ shifts days c, (Console.new start player).shiftAll? shifts = some (days, c) →
      c.Announced start days ∧
      days.map (fun day => day.date.day) =
        (List.range days.length).map (fun n : Nat => start.day + 1 + n) ∧
      c.drain.1.length = (c.today.day - c.announced.day).toNat ∧
      c.drain.2.nextPending? = none ∧ c.drain.2.Announced start (days ++ c.drain.1)) ∧
    ∀ (d : Director) (entropy : Generator) days acts es s,
      d.Chronicle ⟨d.interpreter entropy, .new start player⟩ days acts es s →
      let reports := (start.span s.host.announced).flatMap Date.reports
      s.host.Announced start days ∧
      acts.filterMap Act.report? = reports ∧
      es.filterMap Event.report? = reports.filter (fun report => report ≠ .endRequest) ∧
      reports.count .deduct = (s.host.announced.day - start.day).toNat ∧
      reports.count .credit =
        ((start.span s.host.announced).filter fun date => date.dayOfMonth = 1).length ∧
      reports.count .endRequest =
        ((start.span s.host.announced).filter fun date => date.FirstOfYear).length := by
  have new := Console.announced_new start player
  constructor
  · intro shifts days c moved
    have announced : c.Announced start days := Console.shiftAll?_announced new moved
    obtain ⟨drained, none, length⟩ := Console.announced_drain announced
    exact ⟨announced, announced.numbers, length, none, drained⟩
  · intro d entropy days acts es s chronicle reports
    have announced := chronicle.announced new
    have reported : acts.filterMap Act.report? = reports :=
      chronicle.acts_report.trans announced.reports
    have heard := chronicle.events_report (.inl ⟨rfl, rfl⟩)
    rw [reported] at heard
    obtain ⟨deducted, credited, requested⟩ := Date.count_reports (start.span s.host.announced)
    rw [Date.length_span announced.since] at deducted
    exact ⟨announced, reported, heard, deducted, credited, requested⟩

/-- A month is skipped on 31 January of a leap year and its first day is announced; on 1 March there
are 29 days left. -/
theorem days_reported_once_february :
    let start : Date := ⟨739281, by decide, by decide⟩
    ∃ days c, (Console.new start .initial).shiftAll? [.skip .month 1, .announce, .tomorrow] =
      some (days, c) ∧ days.length = 1 ∧ c.drain.1.length = 29 := by
  intro start
  have moved : ((Console.new start .initial).shiftAll? [.skip .month 1, .announce, .tomorrow]).map
      (fun x => (x.1.length, x.2.today.day, x.2.announced.day)) = some (1, 739311, 739282) := by
    decide
  obtain ⟨⟨days, c⟩, found, same⟩ := Option.map_eq_some_iff.1 moved
  obtain ⟨one, today, announced⟩ : days.length = 1 ∧ c.today.day = 739311 ∧
      c.announced.day = 739282 := by simpa using same
  obtain ⟨-, -, length, -⟩ := (days_reported_once start .initial).1 _ days c found
  refine ⟨days, c, found, one, ?_⟩
  rw [length, today, announced]
  rfl

end Director

end Storyline
