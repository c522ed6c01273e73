import Storyline.Proofs.Graph.Build
import Storyline.Proofs.Interpreter.Plans

/-!
# What becomes of the delays of a late node

A late node goes through its delays in their order. One that is linked and stays within the calendar
is scheduled; about every other one there is a notice, and it changes nothing else.

* `Graph.Arranges`: the continuations scheduled for a list of delays, and the notices.
* `Graph.arranges_iff`: they are determined, and the effects of a late node have them.
* `Stage.late_arranges`: what reaching a late node does to an interpreter and its host.
-/

namespace Storyline

namespace Graph

/-- What becomes of delays that stand at consecutive positions, the first one at the given
position. -/
inductive Arranges (g : Graph) (id : NodeId) (category : Category) (today : Date) :
    Nat → List Delay → List (Date × Continuation) → List Notice → Prop where
  | done {i : Nat} : Arranges g id category today i [] [] []
  | scheduled {i : Nat} {delay : Delay} {ds : List Delay} {entries : List (Date × Continuation)}
      {notices : List Notice} {target : NodeId} {due : Date}
      (linked : ⟨id, delayOutlet i, target⟩ ∈ g.links)
      (ahead : delay.unit.after? delay.amount today = some due)
      (rest : Arranges g id category today (i + 1) ds entries notices) :
      Arranges g id category today i (delay :: ds) ((due, ⟨g, target, category⟩) :: entries) notices
  | unlinked {i : Nat} {delay : Delay} {ds : List Delay} {entries : List (Date × Continuation)}
      {notices : List Notice}
      (unlinked : ∀ target, ⟨id, delayOutlet i, target⟩ ∉ g.links)
      (rest : Arranges g id category today (i + 1) ds entries notices) :
      Arranges g id category today i (delay :: ds) entries (.delayUnconnected id i :: notices)
  | beyond {i : Nat} {delay : Delay} {ds : List Delay} {entries : List (Date × Continuation)}
      {notices : List Notice} {target : NodeId}
      (linked : ⟨id, delayOutlet i, target⟩ ∈ g.links)
      (beyond : delay.unit.after? delay.amount today = none)
      (rest : Arranges g id category today (i + 1) ds entries notices) :
      Arranges g id category today i (delay :: ds) entries (.delayOverflow id i :: notices)

/-! ## Links -/

theorem next?_of_link {g : Graph} {id target : NodeId} {outlet : String}
    (linked : ⟨id, outlet, target⟩ ∈ g.links) :
    ∃ node, g.next? id outlet = some node ∧ node.id = target := by
  obtain ⟨node, mem, same⟩ := g.valid.target _ linked
  exact ⟨node, next?_eq_some_iff.2 ⟨_, linked, rfl, rfl, mem, same⟩, same⟩

theorem link_of_next? {g : Graph} {id : NodeId} {outlet : String} {node : Node}
    (h : g.next? id outlet = some node) : ⟨id, outlet, node.id⟩ ∈ g.links := by
  obtain ⟨l, linked, rfl, rfl, -, same⟩ := next?_eq_some_iff.1 h
  rwa [same]

theorem next?_eq_none_iff {g : Graph} {id : NodeId} {outlet : String} :
    g.next? id outlet = none ↔ ∀ target, ⟨id, outlet, target⟩ ∉ g.links := by
  constructor
  · intro none target linked
    obtain ⟨node, found, -⟩ := next?_of_link linked
    rw [none] at found
    contradiction
  · intro unlinked
    cases found : g.next? id outlet with
    | none => rfl
    | some node => exact absurd (link_of_next? found) (unlinked _)

/-! ## The delays of a node -/

/-- The outcomes of delays that stand at consecutive positions. -/
def delaysFrom (g : Graph) (id : NodeId) (category : Category) (today : Date) (i : Nat)
    (ds : List Delay) : List (Except Notice (Date × Continuation)) :=
  (ds.zipIdx i).map fun (delay, i) => g.delayed id category today delay i

variable {g : Graph} {id : NodeId} {category : Category} {today : Date} {i : Nat}
  {ds : List Delay} {entries : List (Date × Continuation)} {notices : List Notice}

theorem delaysFrom_cons (delay : Delay) (ds : List Delay) :
    g.delaysFrom id category today i (delay :: ds) =
      g.delayed id category today delay i :: g.delaysFrom id category today (i + 1) ds := rfl

theorem arranges_delaysFrom (g : Graph) (id : NodeId) (category : Category) (today : Date)
    (i : Nat) (ds : List Delay) :
    ∃ notices, noticesOf (g.delaysFrom id category today i ds) = notices.map .notice ∧
      g.Arranges id category today i ds (scheduledOf (g.delaysFrom id category today i ds))
        notices := by
  induction ds generalizing i with
  | nil => exact ⟨[], rfl, .done⟩
  | cons delay ds ih =>
    obtain ⟨notices, told, rest⟩ := ih (i + 1)
    rw [delaysFrom_cons, delayed]
    cases found : g.next? id (delayOutlet i) with
    | none =>
      exact ⟨_ :: notices, congrArg _ told, .unlinked (next?_eq_none_iff.1 found) rest⟩
    | some target =>
      cases ahead : delay.unit.after? delay.amount today with
      | none => exact ⟨_ :: notices, congrArg _ told, .beyond (link_of_next? found) ahead rest⟩
      | some due => exact ⟨notices, told, .scheduled (link_of_next? found) ahead rest⟩

/-- No delay is settled in two ways: links that leave one outlet lead to one node. -/
theorem Arranges.unique {entries' : List (Date × Continuation)} {notices' : List Notice}
    (h : g.Arranges id category today i ds entries notices)
    (h' : g.Arranges id category today i ds entries' notices') :
    entries' = entries ∧ notices' = notices := by
  induction h generalizing entries' notices' with
  | done =>
    cases h'
    exact ⟨rfl, rfl⟩
  | @scheduled i delay ds entries notices target due linked ahead _ ih =>
    obtain ⟨node, found, rfl⟩ := next?_of_link linked
    cases h' with
    | scheduled linked' ahead' rest' =>
      obtain ⟨node', found', rfl⟩ := next?_of_link linked'
      obtain ⟨rfl, rfl⟩ := ih rest'
      obtain rfl : node' = node := Option.some.inj (found'.symm.trans found)
      obtain rfl := Option.some.inj (ahead'.symm.trans ahead)
      exact ⟨rfl, rfl⟩
    | unlinked unlinked' _ => exact absurd linked (unlinked' _)
    | beyond _ beyond' _ =>
      rw [ahead] at beyond'
      contradiction
  | unlinked unlinked _ ih =>
    cases h' with
    | unlinked _ rest' =>
      obtain ⟨rfl, rfl⟩ := ih rest'
      exact ⟨rfl, rfl⟩
    | scheduled linked' _ _ => exact absurd linked' (unlinked _)
    | beyond linked' _ _ => exact absurd linked' (unlinked _)
  | beyond linked beyond _ ih =>
    cases h' with
    | beyond _ _ rest' =>
      obtain ⟨rfl, rfl⟩ := ih rest'
      exact ⟨rfl, rfl⟩
    | scheduled _ ahead' _ =>
      rw [beyond] at ahead'
      contradiction
    | unlinked unlinked' _ => exact absurd linked (unlinked' _)

/-- Each delay is either scheduled or told about. -/
theorem Arranges.length (h : g.Arranges id category today i ds entries notices) :
    entries.length + notices.length = ds.length := by
  induction h with
  | done => rfl
  | scheduled _ _ _ ih => simp only [List.length_cons]; omega
  | unlinked _ _ ih => simp only [List.length_cons]; omega
  | beyond _ _ _ ih => simp only [List.length_cons]; omega

theorem Arranges.today_le (h : g.Arranges id category today i ds entries notices) :
    ∀ entry ∈ entries, today ≤ entry.1 := by
  induction h with
  | done => simp
  | scheduled _ ahead _ ih => exact List.forall_mem_cons.2 ⟨Period.le_after? ahead, ih⟩
  | unlinked _ _ ih => exact ih
  | beyond _ _ _ ih => exact ih

/-- Missing links are told about as information, dates beyond the calendar as a warning. -/
theorem Arranges.level (h : g.Arranges id category today i ds entries notices) :
    ∀ notice ∈ notices, (∃ k, notice = .delayUnconnected id k ∧ notice.level = .info) ∨
      ∃ k, notice = .delayOverflow id k ∧ notice.level = .warn := by
  induction h with
  | done => simp
  | scheduled _ _ _ ih => exact ih
  | unlinked _ _ ih => exact List.forall_mem_cons.2 ⟨.inl ⟨_, rfl, rfl⟩, ih⟩
  | beyond _ _ _ ih => exact List.forall_mem_cons.2 ⟨.inr ⟨_, rfl, rfl⟩, ih⟩

end Graph

/-! ## Reaching a late node -/

namespace Stage

variable {H : Type} [Host H]

open Agenda (onDate)

/-- Reaching a late node schedules its linked delays within the calendar, in their order, each
behind all that waits for its date, and never before today. About each other delay there is one
notice. Nothing else changes, and the session goes on through the usual outlet. -/
theorem late_arranges (s : Stage H) (ordered : s.interpreter.agenda.Ordered) (session : Session)
    (id : NodeId) (ds : List Delay) :
    let g := session.graph
    let today := Host.today s.host
    let e := g.effects ⟨id, .late ds⟩ session.category today s.interpreter.generator
    let t := s.apply session e
    ∃ entries notices,
      (∀ entries' notices', g.Arranges id session.category today 0 ds entries' notices' ↔
        entries' = entries ∧ notices' = notices) ∧
      entries.length + notices.length = ds.length ∧
      (∀ entry ∈ entries, today ≤ entry.1) ∧
      (∀ notice ∈ notices, (∃ k, notice = .delayUnconnected id k ∧ notice.level = .info) ∨
        ∃ k, notice = .delayOverflow id k ∧ notice.level = .warn) ∧
      (∀ date, onDate date t.stage.interpreter.agenda.toList =
        onDate date s.interpreter.agenda.toList ++ onDate date entries) ∧
      t.stage.interpreter.agenda.Ordered ∧
      t.stage.interpreter = { s.interpreter with
        session := some session, agenda := t.stage.interpreter.agenda } ∧
      t.stage.host = s.host ∧
      t.events = notices.map .notice ∧
      e.step = .advance ((g.next? id usualOutlet).map Node.id) := by
  intro g today e t
  let v : Visit := ⟨⟨id, .late ds⟩, session.category, today⟩
  obtain ⟨notices, told, arranges⟩ := g.arranges_delaysFrom id session.category today 0 ds
  have events : e.events = notices.map .notice := told
  have stage := apply_stage s session (g.sent_notMem_effects v s.interpreter.generator)
  have agenda : t.stage.interpreter.agenda = s.interpreter.agenda.scheduleAll (g.planned v) := by
    rw [← g.effects_planned v s.interpreter.generator]
    exact congrArg (·.interpreter.agenda) stage
  have calls : e.events.filterMap Event.call? = [] := by
    rw [events, ← calls_heard, heard_notices]
    rfl
  have host : t.stage.host = Host.performAll s.host (e.events.filterMap Event.call?) :=
    congrArg (·.host) stage
  refine ⟨g.planned v, notices, ?_, arranges.length, arranges.today_le, arranges.level, ?_, ?_, ?_,
    ?_, ?_, rfl⟩
  · refine fun entries' notices' => ⟨arranges.unique, ?_⟩
    rintro ⟨rfl, rfl⟩
    exact arranges
  · intro date
    rw [agenda, Agenda.onDate_scheduleAll ordered]
  · rw [agenda]
    exact ordered.scheduleAll _
  · rw [agenda, show t.stage.interpreter = _ from congrArg (·.interpreter) stage,
      ← g.effects_planned v s.interpreter.generator]
    rfl
  · rw [host, calls]
    rfl
  · rw [← events]
    exact apply_events s session e

def promised : List Delay :=
  [⟨.week, 1⟩, ⟨.day, 1⟩, ⟨.month, 4000000000⟩, ⟨.day, 7⟩]

/-- Four promises, the second without a link and the third beyond the calendar. -/
def promises : Graph where
  name := "promises"
  nodes := [⟨"start", .start "promise"⟩, ⟨"late", .late promised⟩, ⟨"callback", .final⟩,
    ⟨"visit", .final⟩]
  links := [⟨"start", "start", "late"⟩, ⟨"late", "infos 0", "callback"⟩,
    ⟨"late", "infos 2", "callback"⟩, ⟨"late", "infos 3", "visit"⟩]
  valid := Document.fault?_eq_none (by decide)

theorem late_arranges_promises :
    let today : Date := ⟨738886, by decide, by decide⟩
    let due : Date := ⟨738893, by decide, by decide⟩
    let earlier : Continuation := ⟨promises, "visit", "earlier"⟩
    let s : Stage Recorder :=
      ⟨{ (fresh ⟨false, 5, 8, some 7⟩ (.ofSeed 7) ⟨today, #[], false⟩ : Stage Recorder).interpreter
          with agenda := Agenda.empty.schedule due earlier }, ⟨today, #[], false⟩⟩
    let session : Session := .at promises "late" "promise"
    let t := s.apply session
      (promises.effects ⟨"late", .late promised⟩ "promise" today s.interpreter.generator)
    onDate due t.stage.interpreter.agenda.toList =
        [(due, earlier), (due, ⟨promises, "callback", "promise"⟩),
          (due, ⟨promises, "visit", "promise"⟩)] ∧
      t.events = [.notice (.delayUnconnected "late" 1), .notice (.delayOverflow "late" 2)] := by
  intro today due earlier s session t
  have ordered : s.interpreter.agenda.Ordered := Agenda.ordered_empty.schedule due earlier
  obtain ⟨entries, notices, arranges, -, -, -, agenda, -, -, -, events, -⟩ :=
    late_arranges s ordered session "late" promised
  have settled : promises.Arranges "late" "promise" today 0 promised
      [(due, ⟨promises, "callback", "promise"⟩), (due, ⟨promises, "visit", "promise"⟩)]
      [.delayUnconnected "late" 1, .delayOverflow "late" 2] :=
    .scheduled (by decide) (by decide +kernel) <|
      .unlinked (Graph.next?_eq_none_iff.1 (by decide)) <|
      .beyond (show ⟨_, _, "callback"⟩ ∈ promises.links by decide) (by decide +kernel) <|
      .scheduled (by decide) (by decide +kernel) .done
  obtain ⟨rfl, rfl⟩ := (arranges _ _).1 settled
  refine ⟨?_, events⟩
  exact agenda due

end Stage

end Storyline
