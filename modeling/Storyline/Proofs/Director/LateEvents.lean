import Storyline.Proofs.Agenda.Accounts
import Storyline.Proofs.Director.Operation
import Storyline.Proofs.Interpreter.Ending
import Storyline.Proofs.Interpreter.Plans

/-!
# Late events

A late node schedules continuations, and a look for late events takes the first of them that is due
and begins its session.

* `Stage.taken`, `Stage.scheduled`: what an act takes from the agenda and what it puts there.
* `Stage.InTurn`: an act treats late events as they are meant to be treated.
* `Director.lateEvents_inTurn`: in every run of a director all acts do.
-/

namespace Storyline

variable {H : Type} [Host H]

namespace Stage

/-- The late event that a look finds, and the agenda without it. -/
def due? (s : Stage H) : Option ((Date × Continuation) × Agenda) :=
  if s.interpreter.isActive then none
  else s.interpreter.agenda.takeDue? (Host.today s.host)

omit [Host H] in
def withAgenda (s : Stage H) (a : Agenda) : Stage H :=
  s.modify fun i => { i with agenda := a }

/-- What an act takes from the agenda. -/
def taken (s : Stage H) : Act H → List (Date × Continuation)
  | .startDue => (s.due?.map Prod.fst).toList
  | _ => []

/-- The agenda without what an act takes from it. -/
def remaining (s : Stage H) : Act H → Agenda
  | .startDue => s.due?.elim s.interpreter.agenda Prod.snd
  | _ => s.interpreter.agenda

/-- The stage at which an act enters the walk, if it does. -/
def enters? (s : Stage H) : Act H → Option (Stage H)
  | .serve r => s.entrance? r
  | .startDue => s.due?.bind fun x => (s.withAgenda x.2).entrance? (.startAt x.1.2)
  | _ => none

/-- What late nodes schedule in the course of an act. -/
def scheduled (s : Stage H) (a : Act H) : List (Date × Continuation) :=
  (s.enters? a).elim [] fun t => t.walkPlanned t.interpreter.settings.maxSteps

def takenAll : Stage H → List (Act H) → List (Date × Continuation)
  | _, [] => []
  | s, a :: acts => s.taken a ++ takenAll (s.act a).stage acts

def scheduledAll : Stage H → List (Act H) → List (Date × Continuation)
  | _, [] => []
  | s, a :: acts => s.scheduled a ++ scheduledAll (s.act a).stage acts

/-! ## Looks -/

theorem startDue_of_none {s : Stage H} (h : s.due? = none) : Director.startDue s = .still s := by
  unfold due? at h
  unfold Director.startDue
  split at h
  · rename_i active
    rw [if_pos active]
  · rename_i inactive
    rw [if_neg inactive, h]

theorem startDue_of_some {s : Stage H} {due : Date} {c : Continuation} {rest : Agenda}
    (h : s.due? = some ((due, c), rest)) :
    Director.startDue s = ((s.withAgenda rest).startAt c).2 := by
  unfold due? at h
  unfold Director.startDue
  split at h
  · contradiction
  · rename_i inactive
    rw [if_neg inactive, h]
    rfl

theorem takeDue?_of_due? {s : Stage H} {entry : Date × Continuation} {rest : Agenda}
    (h : s.due? = some (entry, rest)) :
    s.interpreter.isActive = false ∧
      s.interpreter.agenda.takeDue? (Host.today s.host) = some (entry, rest) := by
  unfold due? at h
  split at h
  · contradiction
  · rename_i inactive
    exact ⟨by simpa using inactive, h⟩

theorem mem_taken {s : Stage H} {a : Act H} {entry : Date × Continuation}
    (mem : entry ∈ s.taken a) : a = .startDue ∧ ∃ rest, s.due? = some (entry, rest) := by
  cases a with
  | startDue =>
    obtain ⟨⟨entry', rest⟩, found, rfl⟩ := Option.map_eq_some_iff.1 (Option.mem_toList.1 mem)
    exact ⟨rfl, rest, found⟩
  | _ => exact absurd mem List.not_mem_nil

/-- A late event that is found begins its session at once. -/
theorem startAt_of_due? {s : Stage H} (resolved : s.interpreter.agenda.Resolved) {due : Date}
    {c : Continuation} {rest : Agenda} (h : s.due? = some ((due, c), rest)) :
    ((s.withAgenda rest).startAt c).1 = true ∧
      (s.withAgenda rest).entrance? (.startAt c) =
        some ((s.withAgenda rest).opening (.at c.graph c.node c.category)).stage ∧
      ∃ later, (Director.startDue s).events =
        .notice (.lateStarted c.graph.name c.node) :: sessionOpening c.category ++ later := by
  obtain ⟨inactive, taken⟩ := takeDue?_of_due? h
  have still : (s.withAgenda rest).interpreter.isActive = false := inactive
  have mem : (due, c) ∈ s.interpreter.agenda.toList := by
    rw [Agenda.takeDue?_toList taken]
    exact List.mem_cons_self
  obtain ⟨node, found⟩ := resolved (due, c) mem
  refine ⟨?_, ?_, ?_⟩
  · simp [startAt, still, found]
  · simp [entrance?, still, found]
  · rw [startDue_of_some h]
    simp only [startAt, still, found]
    exact ⟨_, rfl⟩

/-- Nothing is being played when a late event is found, and its node is there. -/
theorem opens_of_due? {s : Stage H} (coherent : s.interpreter.Coherent)
    (resolved : s.interpreter.agenda.Resolved) {due : Date} {c : Continuation} {rest : Agenda}
    (h : s.due? = some ((due, c), rest)) :
    (s.withAgenda rest).interpreter.Idle ∧
      (Request.startAt c : Request H).Opens c.graph c.node c.category := by
  obtain ⟨inactive, taken⟩ := takeDue?_of_due? h
  have first : (due, c) ∈ s.interpreter.agenda.toList := by
    rw [Agenda.takeDue?_toList taken]
    exact List.mem_cons_self
  obtain ⟨node, found⟩ := resolved _ first
  exact ⟨coherent.idle_of_inactive inactive, .startAt found⟩

/-! ## The agenda after an act -/

theorem toList_remaining (s : Stage H) (a : Act H) :
    s.interpreter.agenda.toList = s.taken a ++ (s.remaining a).toList := by
  cases a with
  | startDue =>
    unfold taken remaining
    cases found : s.due? with
    | none => rfl
    | some x => exact Agenda.takeDue?_toList (takeDue?_of_due? found).2
  | _ => rfl

theorem remaining_ordered {s : Stage H} (ordered : s.interpreter.agenda.Ordered) (a : Act H) :
    (s.remaining a).Ordered := by
  cases a with
  | startDue =>
    unfold remaining
    cases found : s.due? with
    | none => exact ordered
    | some x => exact ordered.takeDue? (takeDue?_of_due? found).2
  | _ => exact ordered

theorem enters?_agenda {s t : Stage H} {a : Act H} (h : s.enters? a = some t) :
    t.interpreter.agenda = s.remaining a := by
  cases a with
  | serve r => exact (entrance?_agenda h).1
  | startDue =>
    obtain ⟨x, found, entrance⟩ := Option.bind_eq_some_iff.1 h
    rw [remaining, found]
    exact (entrance?_agenda entrance).1
  | _ => contradiction

/-- The agenda changes by what is taken from its front and by what late nodes schedule. -/
theorem act_agenda {a : Act H} (own : a.Own) (s : Stage H) :
    (s.act a).stage.interpreter.agenda = (s.remaining a).scheduleAll (s.scheduled a) := by
  cases a with
  | tell n => rfl
  | call c => rfl
  | serve r =>
    have keeps : ∀ a, r.rearrange a = a := own
    rw [act, serve_agenda, keeps]
    rfl
  | startDue =>
    cases found : s.due? with
    | none =>
      simp only [act, startDue_of_none found, remaining, scheduled, enters?, found]
      rfl
    | some x =>
      simp only [act, startDue_of_some found, remaining, scheduled, enters?, found]
      exact (s.withAgenda x.2).serve_agenda (.startAt x.1.2)

theorem walk_agenda_of_enters? {s t : Stage H} {a : Act H} (h : s.enters? a = some t) (n : Nat) :
    (t.walk n).stage.interpreter.agenda = (s.remaining a).scheduleAll (t.walkPlanned n) := by
  rw [walk_agenda, enters?_agenda h]

/-! ## Where entries come from -/

/-- The session stands before a late node of its graph, and the visit schedules the entry. -/
def Schedules (s : Stage H) (entry : Date × Continuation) : Prop :=
  ∃ session v ds, s.interpreter.session = some session ∧ s.visit? = some v ∧
    v.node.kind = .late ds ∧ entry ∈ session.graph.planned v ∧ entry.2.graph = session.graph ∧
    entry.2.category = v.category ∧ v.today ≤ entry.1

theorem mem_planned {s : Stage H} {entry : Date × Continuation} (mem : entry ∈ s.planned) :
    s.Schedules entry ∧ ∃ node, entry.2.graph.node? entry.2.node = some node := by
  have given := mem
  unfold planned at mem
  split at mem
  · rename_i v session visit playing
    obtain ⟨⟨ds, kind⟩, later, graph, category, found⟩ := Graph.mem_planned mem
    rw [graph]
    exact ⟨⟨session, v, ds, playing, visit, kind, mem, graph, category, later⟩, found⟩
  · contradiction

theorem mem_walkPlanned {n : Nat} {s : Stage H} {entry : Date × Continuation}
    (mem : entry ∈ s.walkPlanned n) : ∃ k, k < n ∧ entry ∈ (s.walk k).stage.planned := by
  induction n generalizing s with
  | zero => contradiction
  | succ n ih =>
    rcases List.mem_append.1 mem with now | later
    · exact ⟨0, Nat.succ_pos n, now⟩
    · obtain ⟨k, bound, among⟩ := ih later
      refine ⟨k + 1, Nat.succ_lt_succ bound, ?_⟩
      rw [walk_succ]
      exact among

/-! ## All acts -/

/-- What holds of a stage whose agenda only a director changes. -/
structure Tidy (s : Stage H) : Prop where
  coherent : s.interpreter.Coherent
  ordered : s.interpreter.agenda.Ordered
  resolved : s.interpreter.agenda.Resolved

theorem act_tidy {s : Stage H} (tidy : s.Tidy) {a : Act H} (own : a.Own) :
    (s.act a).stage.Tidy where
  coherent := act_coherent tidy.coherent a
  ordered := by
    rw [act_agenda own]
    exact (remaining_ordered tidy.ordered a).scheduleAll _
  resolved := by
    rw [act_agenda own]
    intro entry mem
    -- An entry is as old as the agenda, or a late node of its graph has found its node.
    rcases Agenda.mem_scheduleAll.1 mem with new | old
    · unfold scheduled at new
      cases entered : s.enters? a with
      | none =>
        rw [entered] at new
        contradiction
      | some t =>
        rw [entered] at new
        obtain ⟨k, -, among⟩ := mem_walkPlanned new
        exact (mem_planned among).2
    · apply tidy.resolved
      rw [s.toList_remaining a]
      exact List.mem_append_right _ old

theorem act_accounts {s : Stage H} (tidy : s.Tidy) {planned taken : List (Date × Continuation)}
    (accounts : s.interpreter.agenda.Accounts planned taken) {a : Act H} (own : a.Own) :
    (s.act a).stage.interpreter.agenda.Accounts (planned ++ s.scheduled a)
      (taken ++ s.taken a) := by
  rw [act_agenda own]
  exact (accounts.take (s.toList_remaining a)).scheduleAll (remaining_ordered tidy.ordered a) _

theorem actAll_accounts {s : Stage H} (tidy : s.Tidy) {planned taken : List (Date × Continuation)}
    (accounts : s.interpreter.agenda.Accounts planned taken) {acts : List (Act H)}
    (own : ∀ a ∈ acts, a.Own) :
    (s.actAll acts).stage.Tidy ∧ (s.actAll acts).stage.interpreter.agenda.Accounts
      (planned ++ s.scheduledAll acts) (taken ++ s.takenAll acts) := by
  induction acts generalizing s planned taken with
  | nil => simpa [actAll, scheduledAll, takenAll] using ⟨tidy, accounts⟩
  | cons a acts ih =>
    obtain ⟨own, rest⟩ := List.forall_mem_cons.1 own
    have later := ih (act_tidy tidy own) (act_accounts tidy accounts own) rest
    simp only [List.append_assoc] at later
    exact later

/-- The act treats late events as they are meant to be treated: it takes the first that waits, if
that is due and nothing is being played, and begins its session at once; late nodes schedule others,
in their own graph. -/
structure InTurn (s : Stage H) (a : Act H) (planned taken : List (Date × Continuation)) : Prop where
  agenda : (s.act a).stage.interpreter.agenda = (s.remaining a).scheduleAll (s.scheduled a)
  /-- The accounts are right during the act, too. -/
  meanwhile : ∀ t, s.enters? a = some t → ∀ n, (t.walk n).stage.interpreter.agenda.Accounts
    (planned ++ t.walkPlanned n) (taken ++ s.taken a)
  scheduled : ∀ t, s.enters? a = some t → ∀ n, ∀ entry ∈ (t.walk n).stage.planned,
    (t.walk n).stage.Schedules entry
  started : ∀ due c, (due, c) ∈ s.taken a → a = .startDue ∧ s.interpreter.Idle ∧
    due ≤ Host.today s.host ∧
    s.interpreter.agenda.toList = (due, c) :: (s.remaining a).toList ∧
    ((s.withAgenda (s.remaining a)).startAt c).1 = true ∧
    s.act a = ((s.withAgenda (s.remaining a)).startAt c).2 ∧
    s.enters? a =
      some ((s.withAgenda (s.remaining a)).opening (.at c.graph c.node c.category)).stage ∧
    ∃ later, (s.act a).events =
      .notice (.lateStarted c.graph.name c.node) :: sessionOpening c.category ++ later

theorem inTurn {s : Stage H} (tidy : s.Tidy) {planned taken : List (Date × Continuation)}
    (accounts : s.interpreter.agenda.Accounts planned taken) {a : Act H} (own : a.Own) :
    s.InTurn a planned taken where
  agenda := act_agenda own s
  meanwhile t entered n := by
    rw [walk_agenda_of_enters? entered]
    exact (accounts.take (s.toList_remaining a)).scheduleAll (remaining_ordered tidy.ordered a) _
  scheduled t entered n entry mem := (mem_planned mem).1
  started due c mem := by
    obtain ⟨rfl, rest, found⟩ := mem_taken mem
    obtain ⟨inactive, taken⟩ := takeDue?_of_due? found
    have remaining : s.remaining .startDue = rest := by simp only [Stage.remaining, found]; rfl
    obtain ⟨begins, entrance, opens⟩ := startAt_of_due? tidy.resolved found
    rw [remaining]
    refine ⟨rfl, tidy.coherent.idle_of_inactive inactive, Agenda.le_of_takeDue? taken,
      Agenda.takeDue?_toList taken, begins, startDue_of_some found, ?_, opens⟩
    simp only [enters?, found]
    exact entrance

end Stage

namespace Director

omit [Host H] in
theorem fresh_tidy (d : Director) (entropy : Generator) (host : H) :
    (Stage.mk (d.interpreter entropy) host).Tidy where
  coherent := .inl ⟨rfl, rfl⟩
  ordered := Agenda.ordered_empty
  resolved := fun _ mem => absurd mem List.not_mem_nil

/-- A run of a director is a row of acts. After any of them what late nodes have scheduled up to
there waits in order or has been taken in order, and the next act goes on like that. -/
theorem lateEvents_inTurn (d : Director) (entropy : Generator) (host : H)
    (ops : List (Operation H)) :
    let start : Stage H := ⟨d.interpreter entropy, host⟩
    d.operateAll start ops = start.actAll (ops.flatMap d.acts) ∧
      ∀ acts rest, ops.flatMap d.acts = acts ++ rest →
        let s := (start.actAll acts).stage
        s.interpreter.agenda.Accounts (start.scheduledAll acts) (start.takenAll acts) ∧
          ∀ a later, rest = a :: later →
            s.InTurn a (start.scheduledAll acts) (start.takenAll acts) := by
  intro start
  refine ⟨d.operateAll_eq start ops, ?_⟩
  intro acts rest split s
  have own : ∀ a ∈ acts ++ rest, a.Own := by
    rw [← split]
    intro a mem
    obtain ⟨op, -, among⟩ := List.mem_flatMap.1 mem
    exact d.acts_own op a among
  obtain ⟨first, last⟩ := List.forall_mem_append.1 own
  obtain ⟨tidy, accounts⟩ :=
    Stage.actAll_accounts (d.fresh_tidy entropy host) Agenda.accounts_empty first
  rw [List.nil_append, List.nil_append] at accounts
  refine ⟨accounts, ?_⟩
  rintro a later rfl
  exact Stage.inTurn tidy accounts (List.forall_mem_cons.1 last).1

/-- A scenario that sends a letter on the next day. -/
def reminder : Graph where
  name := "reminder"
  nodes := [⟨"start", .start "Normal"⟩, ⟨"plan", .late [⟨.day, 1⟩]⟩,
    ⟨"letter", .message none "A letter arrives" [] none⟩, ⟨"end", .final⟩]
  links := [⟨"start", "start", "plan"⟩, ⟨"plan", "infos 0", "letter"⟩, ⟨"plan", "output", "end"⟩,
    ⟨"letter", "output", "end"⟩]
  valid := Document.fault?_eq_none (by decide)

theorem lateEvents_inTurn_reminder :
    let d := (Director.new .default [reminder]).1
    let tomorrow (r : Recorder) : Recorder := { r with today := ⟨739282, by decide, by decide⟩ }
    let s := (Stage.mk (d.interpreter (.ofSeed 1))
      (Recorder.mk ⟨739281, by decide, by decide⟩ #[] false)).actAll
        [.serve (.start reminder), .serve (.change tomorrow), .call .deductDaily]
    let c : Continuation := ⟨reminder, "letter", "Normal"⟩
    (⟨739282, by decide, by decide⟩, c) ∈ s.stage.taken .startDue ∧
      ((s.stage.withAgenda (s.stage.remaining .startDue)).startAt c).1 = true := by
  intro d tomorrow s c
  have mem : (⟨739282, by decide, by decide⟩, c) ∈ s.stage.taken .startDue := by
    have taken : s.stage.taken .startDue = [(⟨739282, by decide, by decide⟩, c)] := rfl
    rw [taken]
    exact List.mem_singleton_self _
  obtain ⟨-, inTurn⟩ := d.lateEvents_inTurn (.ofSeed 1)
    (Recorder.mk ⟨739281, by decide, by decide⟩ #[] false)
    [.command (.start "reminder"), .change tomorrow,
      .command (.dayPassed ⟨739282, by decide, by decide⟩)]
  obtain ⟨-, next⟩ := inTurn
    [.serve (.start reminder), .serve (.change tomorrow), .call .deductDaily] [.startDue] rfl
  obtain ⟨-, -, -, -, begins, -⟩ := (next .startDue [] rfl).started _ c mem
  exact ⟨mem, begins⟩

end Director

end Storyline
