import Storyline.Proofs.Director.InPlay
import Storyline.Proofs.Graph.Acyclic

/-!
# Energy

An interpreter has as much energy as can still be met: behind the place of its session, and behind
all continuations that wait. If its graphs are acyclic, every leg of a walk takes some of it, and a
late event that is started takes the step to its node.

* `Graph.Leads.energy_visit`: a visit takes more than what it schedules and what lies ahead need.
* `Stage.walk_energy_lt`: a session that goes on takes energy.
* `Stage.startDue_energy`: a look for late events takes some, or does nothing.
-/

namespace Storyline

/-! ## Continuations -/

/-- The energy of continuations that wait. -/
def burden (entries : List (Date × Continuation)) : Nat :=
  (entries.map fun entry => entry.2.graph.weight entry.2.node + 1).sum

theorem burden_cons (entry : Date × Continuation) (entries : List (Date × Continuation)) :
    burden (entry :: entries) = entry.2.graph.weight entry.2.node + 1 + burden entries := by
  simp [burden]

theorem burden_scheduleAll (a : Agenda) (entries : List (Date × Continuation)) :
    burden (a.scheduleAll entries).toList = burden a.toList + burden entries := by
  unfold burden
  rw [((a.scheduleAll_perm entries).map _).sum_nat, List.map_append, List.sum_append]

namespace Graph

variable {g : Graph}

theorem delayed_price {id : NodeId} {category : Category} {today : Date} {delay : Delay} {i : Nat}
    {entry : Date × Continuation} (h : g.delayed id category today delay i = .ok entry) :
    entry.2.graph.weight entry.2.node + 1 = g.price id (delayOutlet i) := by
  unfold delayed at h
  split at h
  · contradiction
  · rename_i target linked
    split at h
    · contradiction
    · obtain rfl := Except.ok.inj h
      simp [price, linked]

theorem burden_delays (g : Graph) (id : NodeId) (category : Category) (today : Date)
    (ds : List (Delay × Nat)) :
    burden (scheduledOf (ds.map fun d => g.delayed id category today d.1 d.2)) ≤
      (ds.map fun d => g.price id (delayOutlet d.2)).sum := by
  induction ds with
  | nil => exact Nat.le_refl 0
  | cons d ds ih =>
    rw [List.map_cons, List.map_cons, List.sum_cons]
    cases delayed : g.delayed id category today d.1 d.2 with
    | error notice =>
      show burden (scheduledOf (ds.map _)) ≤ _
      omega
    | ok entry =>
      have price := delayed_price delayed
      show burden (entry :: scheduledOf (ds.map _)) ≤ _
      rw [burden_cons]
      omega

/-- What a visit schedules and the way through its exit need less than the node weighs. -/
theorem burden_planned_exit (acyclic : g.Acyclic) {v : Visit} {outlet : String}
    (exit : v.node.kind.exit? = some outlet) :
    burden (g.planned v) + g.price v.node.id outlet + 3 ≤ g.weight v.node.id := by
  unfold planned
  split
  · rename_i ds kind
    obtain rfl : usualOutlet = outlet := by
      rw [kind] at exit
      exact Option.some.inj exit
    have scheduled : burden (scheduledOf (g.delays v.node.id v.category v.today ds)) ≤ _ :=
      g.burden_delays v.node.id v.category v.today ds.zipIdx
    have positions : (ds.zipIdx.map fun d => g.price v.node.id (delayOutlet d.2)) =
        ((List.range ds.length).map delayOutlet).map (g.price v.node.id) := by
      rw [List.range_eq_range', ← List.zipIdx_map_snd, List.map_map, List.map_map]
      rfl
    have all := acyclic.sum_price_le v.node.id (Kind.late ds).outlets_nodup
    rw [Kind.outlets, List.map_cons, List.sum_cons, ← positions] at all
    omega
  · have one := acyclic.price_le_weight v.node.id outlet
    simpa [burden] using one

/-! ## Places -/

/-- The energy of a session that stands at a place. -/
def energy (g : Graph) : Place → Nat
  | .before _ none => 1
  | .before _ (some id) => g.weight id
  | .awaiting _ suspension => g.weight suspension.node - 1
  | .over _ => 0

theorem energy_next_le (g : Graph) (category : Category) (id : NodeId) (outlet : String) :
    g.energy (.before category ((g.next? id outlet).map Node.id)) ≤ g.price id outlet + 1 := by
  unfold price
  cases g.next? id outlet with
  | none => exact Nat.le_refl 1
  | some target => exact Nat.le_add_right _ 2

theorem planned_of_outcomes {v : Visit} {n : Nat} (kind : v.node.kind.outcomes? = some n) :
    g.planned v = [] := by
  apply planned_eq_nil
  intro ds late
  simp [late, Kind.outcomes?] at kind

theorem Leads.energy_visit {p q : Place} {v : Visit} (h : g.Leads p (.visit v) q)
    (acyclic : g.Acyclic) : g.energy q + burden (g.planned v) < g.energy p := by
  have heavy := acyclic.price_le_weight v.node.id usualOutlet
  cases h with
  | @exit v outlet found kind =>
    have all := burden_planned_exit acyclic kind
    have next := g.energy_next_le (v.node.kind.recategorize v.category) v.node.id outlet
    show _ < g.weight v.node.id
    omega
  | @outcome v n i target found kind bound linked =>
    have price := acyclic.price_le_weight v.node.id (outcomeOutlet i)
    rw [Graph.price, linked, Option.elim_some] at price
    rw [planned_of_outcomes kind]
    show g.weight target.id + 0 < g.weight v.node.id
    omega
  | noOutcome found kind =>
    rw [planned_of_outcomes kind]
    show 1 + 0 < g.weight v.node.id
    omega
  | message found kind =>
    rw [planned_eq_nil (by simp [kind])]
    show g.weight v.node.id - 1 + 0 < g.weight v.node.id
    omega
  | timeSkip found kind =>
    rw [planned_eq_nil (by simp [kind])]
    show g.weight v.node.id - 1 + 0 < g.weight v.node.id
    omega
  | final found kind =>
    rw [planned_eq_nil (by simp [kind])]
    show 0 + 0 < g.weight v.node.id
    omega

end Graph

/-! ## Interpreters -/

namespace Interpreter

/-- Where the session stands, if one is being played. -/
def place? (i : Interpreter) : Option (Graph × Place) :=
  i.session.map fun session => (session.graph,
    match i.phase with
    | .paused suspension => .awaiting session.category suspension
    | _ => .before session.category session.current)

def energy (i : Interpreter) : Nat :=
  burden i.agenda.toList + i.place?.elim 0 fun (g, p) => g.energy p

theorem Idle.energy {i : Interpreter} (h : i.Idle) : i.energy = burden i.agenda.toList := by
  simp [Interpreter.energy, place?, h.2]

theorem Plays.energy {i : Interpreter} {g : Graph} {p : Place} (h : i.Plays g p) :
    i.energy = burden i.agenda.toList + g.energy p := by
  cases h with
  | running phase session => simp [Interpreter.energy, place?, phase, session]
  | paused phase session => simp [Interpreter.energy, place?, phase, session]

end Interpreter

namespace Stage

variable {H : Type} [Host H] {s : Stage H} {g : Graph}

/-! ## Passes -/

theorem pass_energy {category : Category} {next : Option NodeId}
    (plays : s.interpreter.Plays g (.before category next)) (settled : s.interpreter.Settled)
    (acyclic : g.Acyclic) : s.pass.stage.interpreter.energy < s.interpreter.energy := by
  obtain ⟨proceeds, -⟩ := pass_proceeds plays settled
  have agenda := s.pass_agenda
  rw [plays.energy]
  cases id plays with
  | @running _ _ settle phase session holds =>
    cases next with
    | none =>
      have idle : s.pass.stage.interpreter.Idle := by
        rw [pass_runOut phase session rfl]
        simp [Interpreter.Idle, finish_interpreter session]
      have visitless : s.visit? = none := by simp [visit?, phase, session]
      rw [idle.energy, agenda, planned_of_visitless visitless]
      exact Nat.lt_succ_self _
    | some id =>
      obtain ⟨node, found⟩ := holds id rfl
      obtain rfl := g.node?_id found
      let v : Visit := ⟨node, category, Host.today s.host⟩
      have visit : s.visit? = some v := by simp [visit?, phase, session, found, v]
      have legs : s.passLegs = [.visit v] := passLegs_of_visit? visit
      have planned : s.planned = g.planned v := by simp only [Stage.planned, visit, session]
      have one {q : Place} (walk : g.Walk (.before category (some node.id)) s.passLegs q) :
          g.energy q + burden (g.planned v) < g.energy (.before category (some node.id)) := by
        rw [legs] at walk
        cases walk with
        | cons leads rest =>
          cases rest
          exact leads.energy_visit acyclic
      cases proceeds with
      | ongoing walk after =>
        have less := one walk
        rw [after.energy, agenda, burden_scheduleAll, planned]
        omega
      | ended walk last idle =>
        have less := one walk
        rw [idle.energy, agenda, burden_scheduleAll, planned]
        omega

theorem walk_energy (coherent : s.interpreter.Coherent) (settled : s.interpreter.Settled)
    (inPlay : s.InPlay Graph.Acyclic) (n : Nat) :
    (s.walk n).stage.interpreter.energy ≤ s.interpreter.energy := by
  induction n generalizing s with
  | zero => exact Nat.le_refl _
  | succ n ih =>
    rcases coherent with idle | ⟨g, p, plays⟩
    · rw [walk_of_idle idle.2]
      exact Nat.le_refl _
    · have acyclic := inPlay.of_plays plays
      obtain ⟨proceeds, settled'⟩ := pass_proceeds plays settled
      have rest := ih proceeds.coherent settled' (proceeds.inPlay acyclic inPlay.waiting)
      cases id plays with
      | paused phase =>
        have resting : s.interpreter.phase ≠ .running := by simp [phase]
        rw [walk_of_resting resting]
        exact Nat.le_refl _
      | running =>
        have first := pass_energy plays settled acyclic
        rw [walk_succ]
        exact rest.trans (Nat.le_of_lt first)

theorem walk_energy_lt {category : Category} {next : Option NodeId}
    (plays : s.interpreter.Plays g (.before category next)) (settled : s.interpreter.Settled)
    (inPlay : s.InPlay Graph.Acyclic) {n : Nat} (some : 0 < n) :
    (s.walk n).stage.interpreter.energy < s.interpreter.energy := by
  obtain ⟨n, rfl⟩ := Nat.exists_eq_add_one_of_ne_zero (Nat.ne_of_gt some)
  have acyclic := inPlay.of_plays plays
  obtain ⟨proceeds, settled'⟩ := pass_proceeds plays settled
  have first := pass_energy plays settled acyclic
  have rest := walk_energy proceeds.coherent settled' (proceeds.inPlay acyclic inPlay.waiting) n
  rw [walk_succ]
  exact Nat.lt_of_le_of_lt rest first

/-! ## Requests -/

omit [Host H] in
theorem continueThrough_energy {category : Category} {suspension : Suspension}
    (plays : s.interpreter.Plays g (.awaiting category suspension)) (acyclic : g.Acyclic)
    (outlet : String) :
    (s.continueThrough suspension.node outlet).interpreter.energy < s.interpreter.energy := by
  have price := acyclic.price_le_weight suspension.node outlet
  have next := g.energy_next_le category suspension.node outlet
  rw [plays.energy]
  cases plays with
  | paused phase session awaits =>
    have after : (s.continueThrough suspension.node outlet).interpreter.Plays g
        (.before category ((g.next? suspension.node outlet).map Node.id)) := by
      rw [continueThrough_interpreter session]
      exact .running rfl rfl (g.holds_next _ _ _)
    rw [after.energy, continueThrough_agenda]
    show _ < burden s.interpreter.agenda.toList + (g.weight suspension.node - 1)
    omega

theorem choose_energy {category : Category} {id : NodeId} {choices choice : Nat}
    (plays : s.interpreter.Plays g (.awaiting category (.choice id choices)))
    (acyclic : g.Acyclic) (known : ¬ (0 < choices ∧ choices ≤ choice)) :
    (s.choose choice).stage.interpreter.energy < s.interpreter.energy := by
  have less := continueThrough_energy plays acyclic
    (if 0 < choices then choiceOutlet choice else usualOutlet)
  cases plays with
  | paused phase =>
    simp only [choose, phase, if_neg known]
    exact less

omit [Host H] in
theorem skipEnded_energy {category : Category} {id : NodeId}
    (plays : s.interpreter.Plays g (.awaiting category (.timeAdvance id)))
    (acyclic : g.Acyclic) : s.skipEnded.stage.interpreter.energy < s.interpreter.energy := by
  have less := continueThrough_energy plays acyclic usualOutlet
  cases plays with
  | paused phase =>
    simp only [skipEnded, phase]
    exact less

theorem tick_energy {t : Stage H} {elapsed : Nat} {category : Category} {next : Option NodeId}
    (plays : s.interpreter.Plays g (.before category next))
    (inPlay : s.InPlay Graph.Acyclic) (steps : 0 < s.interpreter.settings.maxSteps)
    (settled : s.settled? elapsed = some t) :
    (s.tick elapsed).stage.interpreter.energy < s.interpreter.energy := by
  obtain ⟨after, settledNow, settings, -, agenda⟩ := settled?_plays plays settled
  have acyclic := inPlay.of_plays plays
  have waiting := inPlay.waiting
  rw [← agenda] at waiting
  rw [← settings] at steps
  have less := walk_energy_lt after settledNow (inPlay_of_plays after acyclic waiting) steps
  rw [after.energy, agenda, ← plays.energy] at less
  rw [tick_eq_proceed settled]
  exact less

theorem startDue_energy (tidy : s.Tidy) (inPlay : s.InPlay Graph.Acyclic) :
    (Director.startDue s).stage.interpreter.energy ≤ s.interpreter.energy := by
  cases found : s.due? with
  | none =>
    rw [startDue_of_none found]
    exact Nat.le_refl _
  | some x =>
    obtain ⟨⟨due, c⟩, rest⟩ := x
    have split := Agenda.takeDue?_toList (takeDue?_of_due? found).2
    obtain ⟨own, others⟩ := inPlay.withAgenda split
    obtain ⟨idle, opens⟩ := opens_of_due? tidy.coherent tidy.resolved found
    let opened := ((s.withAgenda rest).opening (.at c.graph c.node c.category)).stage
    have plays : opened.interpreter.Plays c.graph (.before c.category (some c.node)) :=
      (s.withAgenda rest).opening_plays opens
    have less := walk_energy (.inr ⟨_, _, plays⟩)
      ((s.withAgenda rest).opening_settled c.graph c.node c.category)
      (inPlay_of_plays plays own others.waiting) opened.interpreter.settings.maxSteps
    obtain ⟨-, stage, -⟩ := serve_begins idle opens
    -- What the session begins with has been in the burden while the late event waited.
    have before : s.interpreter.energy = burden s.interpreter.agenda.toList :=
      Interpreter.Idle.energy (show s.interpreter.Idle from idle)
    rw [plays.energy] at less
    rw [startDue_of_some found, before, split, burden_cons]
    show ((s.withAgenda rest).serve (.startAt c)).stage.interpreter.energy ≤ _
    rw [stage]
    refine less.trans ?_
    show burden rest.toList + c.graph.weight c.node ≤
      c.graph.weight c.node + 1 + burden rest.toList
    omega

end Stage

end Storyline
