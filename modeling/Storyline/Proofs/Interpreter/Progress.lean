import Storyline.Proofs.Agenda
import Storyline.Proofs.Interpreter.Pass

/-!
# Progress of sessions

An interpreter is idle, or plays a session of a graph that stands at a place of a walk. What it does
from there is a part of the walk; either the session goes on where the part has led, or the walk has
come to its end and so does the session.

* `Interpreter.Plays`: a session of a graph stands at a place.
* `Stage.pass_passes`: what one pass can do, in three cases.
* `Stage.walk_proceeds`: the passes of an interpreter are legs of a walk.
-/

namespace Storyline

namespace Interpreter

def Idle (i : Interpreter) : Prop :=
  i.phase = .idle ∧ i.session = none

/-- A session of the graph is being played and stands at the place. -/
inductive Plays (i : Interpreter) (g : Graph) : Place → Prop where
  | running {category : Category} {next : Option NodeId} {settle : Option Nat}
      (phase : i.phase = .running) (session : i.session = some ⟨g, next, category, settle⟩)
      (holds : g.Holds (.before category next)) : Plays i g (.before category next)
  | paused {category : Category} {suspension : Suspension} (phase : i.phase = .paused suspension)
      (session : i.session = some ⟨g, some suspension.node, category, none⟩)
      (awaits : g.Awaits suspension) : Plays i g (.awaiting category suspension)

def category? (i : Interpreter) : Option Category :=
  i.session.map Session.category

/-- An interpreter is idle or plays. -/
def Coherent (i : Interpreter) : Prop :=
  i.Idle ∨ ∃ g p, i.Plays g p

/-- No settling time is left. -/
def Settled (i : Interpreter) : Prop :=
  ∀ session, i.session = some session → session.settle = none

theorem Idle.settled {i : Interpreter} (h : i.Idle) : i.Settled := by
  intro session hs
  simp [h.2] at hs

theorem Plays.congr {i j : Interpreter} {g : Graph} {p : Place} (h : i.Plays g p)
    (phase : j.phase = i.phase) (session : j.session = i.session) : j.Plays g p := by
  cases h with
  | running phase' session' holds =>
    exact .running (phase.trans phase') (session.trans session') holds
  | paused phase' session' awaits =>
    exact .paused (phase.trans phase') (session.trans session') awaits

theorem Plays.isActive {i : Interpreter} {g : Graph} {p : Place} (h : i.Plays g p) :
    i.isActive := by
  cases h <;> simp_all [Interpreter.isActive]

theorem Coherent.idle_of_inactive {i : Interpreter} (coherent : i.Coherent)
    (h : i.isActive = false) : i.Idle := by
  rcases coherent with idle | ⟨g, p, plays⟩
  · exact idle
  · simp [plays.isActive] at h

theorem Coherent.idle_of_phase {i : Interpreter} (coherent : i.Coherent) (h : i.phase = .idle) :
    i.Idle := by
  rcases coherent with idle | ⟨g, p, plays⟩
  · exact idle
  · cases plays <;> simp_all

theorem Idle.category? {i : Interpreter} (h : i.Idle) : i.category? = none := by
  simp [Interpreter.category?, h.2]

theorem Plays.category? {i : Interpreter} {g : Graph} {p : Place} (h : i.Plays g p) :
    i.category? = some p.category := by
  cases h with
  | running phase session holds => simp [Interpreter.category?, session, Place.category]
  | paused phase session awaits => simp [Interpreter.category?, session, Place.category]

theorem Plays.unique {i : Interpreter} {g g' : Graph} {p p' : Place} (h : i.Plays g p)
    (h' : i.Plays g' p') : g = g' ∧ p = p' := by
  cases h with
  | running phase session holds =>
    cases h' with
    | running phase' session' holds' =>
      obtain ⟨rfl, rfl, rfl, -⟩ := Session.mk.inj (Option.some.inj (session.symm.trans session'))
      exact ⟨rfl, rfl⟩
    | paused phase' => simp [phase] at phase'
  | paused phase session awaits =>
    cases h' with
    | running phase' => simp [phase] at phase'
    | paused phase' session' awaits' =>
      obtain rfl := Phase.paused.inj (phase.symm.trans phase')
      obtain ⟨rfl, -, rfl, -⟩ := Session.mk.inj (Option.some.inj (session.symm.trans session'))
      exact ⟨rfl, rfl⟩

theorem Plays.graph {i : Interpreter} {g : Graph} {p : Place} (h : i.Plays g p)
    {session : Session} (playing : i.session = some session) : session.graph = g := by
  cases h with
  | running phase session' holds =>
    obtain rfl := Option.some.inj (playing.symm.trans session')
    rfl
  | paused phase session' awaits =>
    obtain rfl := Option.some.inj (playing.symm.trans session')
    rfl

theorem Plays.not_idle {i : Interpreter} {g : Graph} {p : Place} (h : i.Plays g p) :
    ¬ i.Idle := by
  rintro ⟨-, none⟩
  cases h <;> simp_all

end Interpreter

/-! ## What an agenda gains -/

/-- All that is new goes on at a node of the graph, under the category of one of the visits. -/
def Agenda.Gains (old : Agenda) (g : Graph) (legs : List Leg) (new : Agenda) : Prop :=
  ∀ entry ∈ new.toList, entry ∈ old.toList ∨
    entry.2.graph = g ∧ (∃ node, g.node? entry.2.node = some node) ∧
      ∃ v, .visit v ∈ legs ∧ entry.2.category = v.category

namespace Agenda

theorem Gains.refl (a : Agenda) (g : Graph) (legs : List Leg) : a.Gains g legs a :=
  fun _ mem => .inl mem

theorem Gains.append {a b c : Agenda} {g : Graph} {legs legs' : List Leg} (h₁ : a.Gains g legs b)
    (h₂ : b.Gains g legs' c) : a.Gains g (legs ++ legs') c := by
  intro entry mem
  rcases h₂ entry mem with old | ⟨graph, found, v, visit, category⟩
  · rcases h₁ entry old with old | ⟨graph, found, v, visit, category⟩
    · exact .inl old
    · exact .inr ⟨graph, found, v, List.mem_append_left _ visit, category⟩
  · exact .inr ⟨graph, found, v, List.mem_append_right _ visit, category⟩

theorem gains_visit (i : Interpreter) (g : Graph) (v : Visit) (gen : Generator)
    (session : Session) :
    i.agenda.Gains g [.visit v]
      (i.visited session (g.effects v.node v.category v.today gen)).agenda := by
  intro entry mem
  rcases mem_scheduleAll.1 mem with new | old
  · obtain ⟨graph, category, found⟩ := Graph.effects_scheduled new
    exact .inr ⟨graph, found, v, List.mem_singleton_self _, category⟩
  · exact .inl old

end Agenda

namespace Stage

variable {H : Type} [Host H]

def visit? (s : Stage H) : Option Visit :=
  match s.interpreter.phase, s.interpreter.session with
  | .running, some session => (session.current.bind session.graph.node?).map fun node =>
      ⟨node, session.category, Host.today s.host⟩
  | _, _ => none

theorem visit?_eq_some {s : Stage H} {v : Visit} (h : s.visit? = some v) :
    ∃ session, s.interpreter.session = some session ∧
      session.graph.node? v.node.id = some v.node ∧ v.category = session.category ∧
        v.today = Host.today s.host := by
  unfold visit? at h
  split at h
  · rename_i session phase playing
    obtain ⟨node, found, rfl⟩ := Option.map_eq_some_iff.1 h
    obtain ⟨id, -, found⟩ := Option.bind_eq_some_iff.1 found
    obtain rfl := session.graph.node?_id found
    exact ⟨session, playing, found, rfl, rfl⟩
  · contradiction

/-- What the session does at a node: its effects, and the step after them. -/
def visit (s : Stage H) (session : Session) (v : Visit) : Turn H :=
  let e := session.graph.effects v.node v.category v.today s.interpreter.generator
  (s.apply session e).andThen (follow e.step)

/-- What one pass can do. -/
inductive Passes (s : Stage H) (t : Turn H) : Prop where
  | rests (resting : s.interpreter.phase ≠ .running ∨ s.interpreter.session = none)
      (visitless : s.visit? = none) (turn : t = .still s)
  | ends {session : Session} (playing : s.interpreter.session = some session)
      (nowhere : s.interpreter.currentNode? = none) (visitless : s.visit? = none)
      (stage : t.stage = s.finish.stage) (events : heard t.events = heard s.finish.events)
  | visits {session : Session} {v : Visit} (playing : s.interpreter.session = some session)
      (current : s.interpreter.currentNode? = some v.node) (visit : s.visit? = some v)
      (turn : t = s.visit session v)

theorem pass_passes (s : Stage H) : s.Passes s.pass := by
  by_cases running : s.interpreter.phase = .running
  · cases playing : s.interpreter.session with
    | none =>
      have visitless : s.visit? = none := by simp only [visit?, running, playing]
      exact .rests (.inr playing) visitless (by simp only [pass, running, playing])
    | some session =>
      cases current : session.current with
      | none =>
        have nowhere : s.interpreter.currentNode? = none := by
          simp [Interpreter.currentNode?, playing, current]
        have visitless : s.visit? = none := by simp [visit?, running, playing, current]
        have last := pass_runOut running playing current
        exact .ends playing nowhere visitless (by rw [last]) (by rw [last])
      | some id =>
        have here : s.interpreter.currentNode? = session.graph.node? id := by
          simp [Interpreter.currentNode?, playing, current]
        cases found : session.graph.node? id with
        | none =>
          have visitless : s.visit? = none := by simp [visit?, running, playing, current, found]
          have last : s.pass = (s.tell (.nodeUnresolved session.graph.name id)).andThen finish := by
            simp only [pass, running, playing, current, found]
          exact .ends playing (here.trans found) visitless (by rw [last]; rfl) (by rw [last]; rfl)
        | some node =>
          obtain rfl := session.graph.node?_id found
          refine .visits (v := ⟨node, session.category, Host.today s.host⟩) playing
            (here.trans found) ?_ (pass_visit running playing current found)
          simp [visit?, running, playing, current, found]
  · refine .rests (.inl running) ?_ (pass_of_resting running)
    unfold visit?
    split
    · contradiction
    · rfl

def passLegs (s : Stage H) : List Leg :=
  (s.visit?.map Leg.visit).toList

theorem passLegs_of_visitless {s : Stage H} (visitless : s.visit? = none) : s.passLegs = [] := by
  simp [passLegs, visitless]

theorem passLegs_of_visit? {s : Stage H} {v : Visit} (visit : s.visit? = some v) :
    s.passLegs = [.visit v] := by
  simp [passLegs, visit]

def walkLegs : Nat → Stage H → List Leg
  | 0, _ => []
  | n + 1, s => s.passLegs ++ walkLegs n s.pass.stage

/-- A session that stood at a place has gone through some legs. -/
inductive Proceeds (s : Stage H) (g : Graph) (p : Place) (legs : List Leg) (t : Turn H) : Prop where
  | ongoing {q : Place} (walk : g.Walk p legs q) (plays : t.stage.interpreter.Plays g q)
      (settings : t.stage.interpreter.settings = s.interpreter.settings)
      (flag : t.stage.interpreter.endRequested = s.interpreter.endRequested)
      (agenda : s.interpreter.agenda.Gains g legs t.stage.interpreter.agenda)
      (events : heard t.events = (legs.flatMap Leg.calls).map .call)
  | ended {q : Place} (walk : g.Walk p legs q) (last : q.HasEnded)
      (idle : t.stage.interpreter.Idle)
      (settings : t.stage.interpreter.settings = s.interpreter.settings)
      (flag : t.stage.interpreter.endRequested = false)
      (agenda : s.interpreter.agenda.Gains g legs t.stage.interpreter.agenda)
      (events : heard t.events = (legs.flatMap Leg.calls).map .call ++
        sessionEnding s.interpreter.settings.sandbox s.interpreter.endRequested q.category)

omit [Host H] in
theorem Proceeds.of_eq {s s' : Stage H} {g : Graph} {p : Place} {legs : List Leg} {t : Turn H}
    (h : s'.Proceeds g p legs t) (settings : s'.interpreter.settings = s.interpreter.settings)
    (flag : s'.interpreter.endRequested = s.interpreter.endRequested)
    (agenda : s'.interpreter.agenda = s.interpreter.agenda) : s.Proceeds g p legs t := by
  cases h with
  | ongoing walk plays settings' flag' agenda' events =>
    rw [agenda] at agenda'
    exact .ongoing walk plays (settings'.trans settings) (flag'.trans flag) agenda' events
  | ended walk last idle settings' flag' agenda' events =>
    rw [agenda] at agenda'
    rw [settings, flag] at events
    exact .ended walk last idle (settings'.trans settings) flag' agenda' events

/-! ## One pass -/

theorem passLegs_of_resting {s : Stage H} (resting : s.interpreter.phase ≠ .running) :
    s.passLegs = [] := by
  unfold passLegs visit?
  split
  · contradiction
  · rfl

theorem passLegs_runOut {s : Stage H} {session : Session}
    (h : s.interpreter.session = some session) (none : session.current = none) :
    s.passLegs = [] := by
  unfold passLegs visit?
  rw [h]
  split
  · rename_i same
    obtain rfl := Option.some.inj same
    simp [none]
  · rfl

theorem passLegs_visit {s : Stage H} {session : Session} {node : Node}
    (running : s.interpreter.phase = .running) (h : s.interpreter.session = some session)
    (current : session.current = some node.id) (found : session.graph.node? node.id = some node) :
    s.passLegs = [.visit ⟨node, session.category, Host.today s.host⟩] := by
  simp [passLegs, visit?, running, h, current, found]

theorem finish_proceeds {s : Stage H} {g : Graph} {p q : Place} {legs : List Leg} {t : Turn H}
    {session : Session} (walk : g.Walk p legs q) (last : q.HasEnded)
    (h : t.stage.interpreter.session = some session) (category : session.category = q.category)
    (settings : t.stage.interpreter.settings = s.interpreter.settings)
    (flag : t.stage.interpreter.endRequested = s.interpreter.endRequested)
    (agenda : s.interpreter.agenda.Gains g legs t.stage.interpreter.agenda)
    (events : heard t.events = (legs.flatMap Leg.calls).map .call) :
    s.Proceeds g p legs (t.andThen finish) := by
  apply Proceeds.ended walk last
  · simp [Interpreter.Idle, finish_interpreter h]
  · simp [finish_interpreter h, settings]
  · simp [finish_interpreter h]
  · simpa [finish_interpreter h] using agenda
  · simp [finish_heard h, events, category, settings, flag]

/-- A turn in which a node was visited, and whose step is still to be followed. -/
structure Visited (s : Stage H) (g : Graph) (v : Visit) (e : Effects) (t : Turn H) : Prop where
  phase : s.interpreter.phase = .running
  interpreter : t.stage.interpreter =
    s.interpreter.visited ⟨g, some v.node.id, v.category, none⟩ e
  gains : s.interpreter.agenda.Gains g [.visit v] t.stage.interpreter.agenda
  events : heard t.events = ([Leg.visit v].flatMap Leg.calls).map .call

theorem visited_apply {s : Stage H} (phase : s.interpreter.phase = .running) (g : Graph)
    (node : Node) (category : Category) :
    let today := Host.today s.host
    let e := g.effects node category today s.interpreter.generator
    s.Visited g ⟨node, category, today⟩ e (s.apply ⟨g, some node.id, category, none⟩ e) := by
  intro today e
  let v : Visit := ⟨node, category, today⟩
  have stage : (s.apply ⟨g, some node.id, category, none⟩ e).stage = _ :=
    apply_stage s _ (g.sent_notMem_effects v s.interpreter.generator)
  refine ⟨phase, by rw [stage], ?_, ?_⟩
  · rw [stage]
    exact Agenda.gains_visit s.interpreter g v s.interpreter.generator _
  · rw [apply_events]
    simpa [Leg.calls] using g.effects_heard v s.interpreter.generator

namespace Visited

variable {s : Stage H} {g : Graph} {v : Visit} {e : Effects} {t : Turn H}

theorem advance (h : s.Visited g v e t) {next : Option NodeId}
    (leads : g.Leads (.before v.category (some v.node.id)) (.visit v) (.before e.category next)) :
    s.Proceeds g (.before v.category (some v.node.id)) [.visit v]
        (t.andThen (follow (.advance next))) ∧
      (t.andThen (follow (.advance next))).stage.interpreter.Settled := by
  have after : (t.stage.moveTo next).interpreter =
      { t.stage.interpreter with session := some ⟨g, next, e.category, none⟩ } := by
    simp [moveTo, modify, h.interpreter, Interpreter.visited]
  have same : t.andThen (follow (.advance next)) = ⟨t.stage.moveTo next, t.events⟩ := by
    simp [Turn.andThen, follow, Turn.still]
  rw [same]
  constructor
  · refine .ongoing leads.walk ?_ ?_ ?_ ?_ h.events
    · rw [after]
      refine .running ?_ rfl leads.holds
      rw [h.interpreter]
      exact h.phase
    · rw [after, h.interpreter]
      rfl
    · rw [after, h.interpreter]
      rfl
    · rw [after]
      exact h.gains
  · simp [Interpreter.Settled, after]

theorem suspend (h : s.Visited g v e t) {suspension : Suspension}
    (leads : g.Leads (.before v.category (some v.node.id)) (.visit v)
      (.awaiting e.category suspension)) :
    s.Proceeds g (.before v.category (some v.node.id)) [.visit v]
        (t.andThen (follow (.suspend suspension))) ∧
      (t.andThen (follow (.suspend suspension))).stage.interpreter.Settled := by
  have same : t.andThen (follow (.suspend suspension)) =
      ⟨t.stage.modify fun i => { i with phase := .paused suspension }, t.events⟩ := by
    simp [Turn.andThen, follow, Turn.still]
  rw [same]
  constructor
  · refine .ongoing leads.walk (.paused rfl ?_ leads.holds) ?_ ?_ h.gains h.events
    · simp [modify, h.interpreter, Interpreter.visited, leads.awaiting]
    · simp [modify, h.interpreter, Interpreter.visited]
    · simp [modify, h.interpreter, Interpreter.visited]
  · simp [Interpreter.Settled, modify, h.interpreter, Interpreter.visited]

theorem finish (h : s.Visited g v e t)
    (leads : g.Leads (.before v.category (some v.node.id)) (.visit v) (.over e.category)) :
    s.Proceeds g (.before v.category (some v.node.id)) [.visit v] (t.andThen (follow .finish)) ∧
      (t.andThen (follow .finish)).stage.interpreter.Settled := by
  have session : t.stage.interpreter.session = some ⟨g, some v.node.id, e.category, none⟩ := by
    rw [h.interpreter]
    rfl
  constructor
  · refine finish_proceeds leads.walk trivial session rfl ?_ ?_ h.gains h.events
    · rw [h.interpreter]
      rfl
    · rw [h.interpreter]
      rfl
  · simp [Interpreter.Settled, follow, finish_interpreter session]

end Visited

theorem visit_proceeds {s : Stage H} {g : Graph} {node : Node} {category : Category}
    (phase : s.interpreter.phase = .running) (found : g.node? node.id = some node) :
    let v : Visit := ⟨node, category, Host.today s.host⟩
    let e := g.effects node category (Host.today s.host) s.interpreter.generator
    let t := (s.apply ⟨g, some node.id, category, none⟩ e).andThen (follow e.step)
    s.Proceeds g (.before category (some node.id)) [.visit v] t ∧
      t.stage.interpreter.Settled := by
  intro v e t
  have visited := s.visited_apply phase g node category
  have leads : g.Leads (.before category (some node.id)) (.visit v)
      (e.step.place (node.kind.recategorize category)) :=
    Graph.effects_leads (v := v) found s.interpreter.generator
  rw [← g.effects_category v s.interpreter.generator] at leads
  -- The effects are the same for all steps, and only what follows them differs.
  cases step : e.step with
  | advance next =>
    rw [step] at leads
    simpa only [t, step] using visited.advance leads
  | suspend suspension =>
    rw [step] at leads
    simpa only [t, step] using visited.suspend leads
  | finish =>
    rw [step] at leads
    simpa only [t, step] using visited.finish leads

theorem pass_proceeds {s : Stage H} {g : Graph} {p : Place} (h : s.interpreter.Plays g p)
    (settled : s.interpreter.Settled) :
    s.Proceeds g p s.passLegs s.pass ∧ s.pass.stage.interpreter.Settled := by
  cases h with
  | paused phase session awaits =>
    have resting : s.interpreter.phase ≠ .running := by simp [phase]
    rw [pass_of_resting resting, passLegs_of_resting resting]
    exact ⟨.ongoing .nil (.paused phase session awaits) rfl rfl (.refl _ _ _) rfl, settled⟩
  | @running category next settle phase session holds =>
    obtain rfl : settle = none := settled _ session
    cases next with
    | none =>
      rw [pass_runOut phase session rfl, passLegs_runOut session rfl]
      have last : Place.HasEnded (.before category none) := rfl
      have ended := finish_proceeds (g := g) (t := .still s) .nil last session rfl rfl rfl
        (.refl _ _ _) rfl
      rw [Turn.still_andThen] at ended
      refine ⟨ended, ?_⟩
      simp [Interpreter.Settled, finish_interpreter session]
    | some id =>
      obtain ⟨node, found⟩ := holds id rfl
      obtain rfl := g.node?_id found
      rw [pass_visit phase session rfl found, passLegs_visit phase session rfl found]
      exact visit_proceeds phase found

/-! ## Passes in a row -/

omit [Host H] in
theorem Proceeds.andThen {s : Stage H} {g : Graph} {p : Place} {legs legs' : List Leg} {t : Turn H}
    {f : Stage H → Turn H} (h : s.Proceeds g p legs t)
    (next : ∀ q, t.stage.interpreter.Plays g q → t.stage.Proceeds g q legs' (f t.stage))
    (rest : t.stage.interpreter.Idle → legs' = [] ∧ f t.stage = .still t.stage) :
    s.Proceeds g p (legs ++ legs') (t.andThen f) := by
  cases h with
  | ongoing walk plays settings flag agenda events =>
    cases next _ plays with
    | ongoing walk' plays' settings' flag' agenda' events' =>
      refine .ongoing (walk.append walk') plays' (settings'.trans settings) (flag'.trans flag)
        (agenda.append agenda') ?_
      simp [events, events']
    | ended walk' last idle settings' flag' agenda' events' =>
      refine .ended (walk.append walk') last idle (settings'.trans settings) flag'
        (agenda.append agenda') ?_
      simp [events, events', settings, flag]
  | ended walk last idle settings flag agenda events =>
    obtain ⟨rfl, still⟩ := rest idle
    rw [Turn.andThen_congr (g := Turn.still) still, Turn.andThen_still, List.append_nil]
    exact .ended walk last idle settings flag agenda events

theorem walkLegs_of_idle {s : Stage H} (idle : s.interpreter.Idle) (n : Nat) :
    s.walkLegs n = [] := by
  induction n with
  | zero => rfl
  | succ n ih =>
    have resting : s.interpreter.phase ≠ .running := by simp [idle.1]
    rw [walkLegs, passLegs_of_resting resting, pass_of_resting resting]
    exact ih

theorem walk_proceeds {s : Stage H} {g : Graph} {p : Place} (h : s.interpreter.Plays g p)
    (settled : s.interpreter.Settled) (n : Nat) : s.Proceeds g p (s.walkLegs n) (s.walk n) := by
  induction n generalizing s p with
  | zero => exact .ongoing .nil h rfl rfl (.refl _ _ _) rfl
  | succ n ih =>
    obtain ⟨first, settled'⟩ := pass_proceeds h settled
    rw [walkLegs, walk_succ]
    apply first.andThen
    · intro q plays
      exact ih plays settled'
    · intro idle
      exact ⟨walkLegs_of_idle idle n, walk_of_idle idle.2 n⟩

end Stage

end Storyline
