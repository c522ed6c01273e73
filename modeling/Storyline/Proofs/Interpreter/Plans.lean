import Storyline.Proofs.Agenda.Order
import Storyline.Proofs.Calendar.Ahead
import Storyline.Proofs.Interpreter.Speech

/-!
# What late nodes plan

The agenda of an interpreter changes by what late nodes schedule, and by requests to the agenda
itself.

* `Graph.planned`: what a visit schedules.
* `Stage.serve_agenda`: the agenda after a request.
-/

namespace Storyline

/-! ## Visits -/

namespace Graph

/-- What a visit schedules. Late nodes alone schedule something. -/
def planned (g : Graph) (v : Visit) : List (Date × Continuation) :=
  match v.node.kind with
  | .late ds => scheduledOf (g.delays v.node.id v.category v.today ds)
  | _ => []

theorem planned_eq_nil {g : Graph} {v : Visit} (quiet : ∀ ds, v.node.kind ≠ .late ds) :
    g.planned v = [] := by
  unfold planned
  split
  · rename_i ds kind
    exact absurd kind (quiet ds)
  · rfl

theorem effects_planned (g : Graph) (v : Visit) (gen : Generator) :
    (g.effects v.node v.category v.today gen).scheduled = g.planned v := by
  unfold effects planned
  cases v.node.kind <;> rfl

theorem delayed_eq_ok {g : Graph} {id : NodeId} {category : Category} {today due : Date}
    {delay : Delay} {i : Nat} {c : Continuation}
    (h : g.delayed id category today delay i = .ok (due, c)) :
    ∃ target, g.next? id (delayOutlet i) = some target ∧
      delay.unit.after? delay.amount today = some due ∧ c = ⟨g, target.id, category⟩ := by
  unfold delayed at h
  split at h
  · contradiction
  · rename_i target linked
    split at h
    · contradiction
    · rename_i date ahead
      obtain ⟨rfl, rfl⟩ := Prod.mk.inj (Except.ok.inj h)
      exact ⟨target, linked, ahead, rfl⟩

/-- What a visit schedules, one of the delays of its late node has scheduled. -/
theorem exists_delay {g : Graph} {v : Visit} {due : Date} {c : Continuation}
    (mem : (due, c) ∈ g.planned v) :
    ∃ ds delay i target, v.node.kind = .late ds ∧ delay ∈ ds ∧
      g.next? v.node.id (delayOutlet i) = some target ∧
      delay.unit.after? delay.amount v.today = some due ∧ c = ⟨g, target.id, v.category⟩ := by
  unfold planned at mem
  split at mem
  · rename_i ds kind
    obtain ⟨outcome, among, entry⟩ := List.mem_filterMap.1 mem
    obtain ⟨⟨delay, i⟩, indexed, rfl⟩ := List.mem_map.1 among
    dsimp only at entry
    split at entry
    · rename_i result delayed
      obtain rfl := Option.some.inj entry
      obtain ⟨target, linked, ahead, same⟩ := delayed_eq_ok delayed
      exact ⟨ds, delay, i, target, kind, List.fst_mem_of_mem_zipIdx indexed, linked, ahead, same⟩
    · contradiction
  · contradiction

theorem mem_planned {g : Graph} {v : Visit} {due : Date} {c : Continuation}
    (mem : (due, c) ∈ g.planned v) :
    (∃ ds, v.node.kind = .late ds) ∧ v.today ≤ due ∧ c.graph = g ∧ c.category = v.category ∧
      ∃ node, g.node? c.node = some node := by
  obtain ⟨ds, delay, i, target, kind, -, linked, ahead, rfl⟩ := exists_delay mem
  exact ⟨⟨ds, kind⟩, Period.le_after? ahead, rfl, rfl, target, node?_of_next? linked⟩

end Graph

namespace Stage

variable {H : Type} [Host H]

/-! ## Passes -/

/-- What the next pass of the walk schedules. -/
def planned (s : Stage H) : List (Date × Continuation) :=
  match s.visit?, s.interpreter.session with
  | some v, some session => session.graph.planned v
  | _, _ => []

def walkPlanned : Nat → Stage H → List (Date × Continuation)
  | 0, _ => []
  | n + 1, s => s.planned ++ walkPlanned n s.pass.stage

theorem planned_of_visitless {s : Stage H} (h : s.visit? = none) : s.planned = [] := by
  unfold planned
  rw [h]

theorem finish_agenda (s : Stage H) :
    s.finish.stage.interpreter.agenda = s.interpreter.agenda := by
  cases session : s.interpreter.session with
  | none => rw [finish_idle session, Turn.stage_still]
  | some session => rw [finish_interpreter session]

theorem follow_agenda (step : Step) (s : Stage H) :
    (s.follow step).stage.interpreter.agenda = s.interpreter.agenda := by
  cases step with
  | finish => exact s.finish_agenda
  | _ => rfl

theorem visit_agenda (s : Stage H) (session : Session) (v : Visit) :
    (s.visit session v).stage.interpreter.agenda =
      s.interpreter.agenda.scheduleAll (session.graph.planned v) := by
  rw [visit, Turn.stage_andThen, follow_agenda,
    apply_stage s session (session.graph.sent_notMem_effects v s.interpreter.generator),
    ← session.graph.effects_planned v s.interpreter.generator]
  rfl

theorem pass_agenda (s : Stage H) :
    s.pass.stage.interpreter.agenda = s.interpreter.agenda.scheduleAll s.planned := by
  cases s.pass_passes with
  | rests resting visitless turn =>
    rw [turn, planned_of_visitless visitless]
    rfl
  | ends playing nowhere visitless stage events =>
    rw [stage, planned_of_visitless visitless]
    exact s.finish_agenda
  | @visits session v playing current visit turn =>
    have planned : s.planned = session.graph.planned v := by simp only [planned, visit, playing]
    rw [turn, planned, visit_agenda]

theorem walk_agenda (n : Nat) (s : Stage H) :
    (s.walk n).stage.interpreter.agenda = s.interpreter.agenda.scheduleAll (s.walkPlanned n) := by
  induction n generalizing s with
  | zero => rfl
  | succ n ih =>
    rw [walk_succ, Turn.stage_andThen, ih, pass_agenda, walkPlanned, Agenda.scheduleAll_append]

/-! ## Requests -/

def plans (s : Stage H) (r : Request H) : List (Date × Continuation) :=
  (s.entrance? r).elim [] fun t => t.walkPlanned t.interpreter.settings.maxSteps

omit [Host H] in
theorem continueThrough_agenda (s : Stage H) (id : NodeId) (outlet : String) :
    (s.continueThrough id outlet).interpreter.agenda = s.interpreter.agenda := by
  unfold continueThrough modify
  dsimp only
  split <;> rfl

theorem entrance?_agenda {s t : Stage H} {r : Request H} (h : s.entrance? r = some t) :
    t.interpreter.agenda = s.interpreter.agenda ∧ ∀ a, r.rearrange a = a := by
  rcases entrance?_eq_some h with ⟨-, g, id, category, opens, rfl⟩ | ⟨elapsed, rfl, settled⟩
  · exact ⟨rfl, by cases opens <;> exact fun _ => rfl⟩
  · rcases settled?_eq_some settled with rfl | ⟨session, -, rfl⟩
    · exact ⟨rfl, fun _ => rfl⟩
    · exact ⟨rfl, fun _ => rfl⟩

theorem agenda_of_closed {s : Stage H} {r : Request H} (h : s.entrance? r = none) :
    (s.serve r).stage.interpreter.agenda = r.rearrange s.interpreter.agenda := by
  cases r with
  | start g =>
    obtain ⟨id, category, first⟩ := g.exists_start
    rw [entrance?_start s first] at h
    split at h
    · rename_i active
      rw [serve, start_eq s first, if_pos active]
      rfl
    · contradiction
  | startAt c =>
    cases found : c.graph.node? c.node <;> cases active : s.interpreter.isActive <;>
      simp_all [entrance?, serve, startAt, tell, Request.rearrange]
  | tick elapsed =>
    have h : s.settled? elapsed = none := h
    rw [serve]
    unfold settled? at h
    unfold tick
    cases phase : s.interpreter.phase with
    | running =>
      cases playing : s.interpreter.session with
      | none => simp [phase, playing] at h
      | some session =>
        cases settle : session.settle with
        | none => simp [phase, playing, settle] at h
        | some left =>
          have early : elapsed < left := by simpa [phase, playing, settle] using h
          simp only [settle, early, if_true]
          rfl
    | _ => rfl
  | choose choice =>
    rw [serve]
    unfold choose
    split
    · split
      · rfl
      · exact continueThrough_agenda _ _ _
    · rfl
  | skipEnded =>
    rw [serve]
    unfold skipEnded
    split
    · exact continueThrough_agenda _ _ _
    · rfl
  | finish => exact s.finish_agenda
  | _ => rfl

/-- The agenda after a request: what late nodes have scheduled meanwhile comes behind the rest. -/
theorem serve_agenda (s : Stage H) (r : Request H) :
    (s.serve r).stage.interpreter.agenda =
      (r.rearrange s.interpreter.agenda).scheduleAll (s.plans r) := by
  unfold plans
  cases entrance : s.entrance? r with
  | some t =>
    obtain ⟨same, keeps⟩ := entrance?_agenda entrance
    rw [(serve_of_entrance entrance).1, Option.elim_some, keeps, ← same]
    exact walk_agenda _ t
  | none => exact agenda_of_closed entrance

end Stage

end Storyline
