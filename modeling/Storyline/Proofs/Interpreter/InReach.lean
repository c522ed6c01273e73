import Storyline.Proofs.Graph.Reach
import Storyline.Proofs.Interpreter.SessionWalk

/-!
# Sessions within reach

A session that begins at the start node visits nodes within reach only, and so does one that begins
where a late node of such a session has led. Without an end node within reach, none of them comes to
one.

* `Stage.Rooted`: the requests that begin such sessions.
* `Stage.runPlans_inReach`: what is planned in the course of a session lies within reach.
* `Stage.endUnreachable_exact`: what the warning about a graph says, and what it means for sessions.
-/

namespace Storyline.Stage

variable {H : Type} [Host H]

/-- What late nodes schedule in the course of a run. -/
def runPlans : Stage H → List (Request H) → List (Date × Continuation)
  | _, [] => []
  | s, r :: rs => s.plans r ++ runPlans (s.serve r).stage rs

/-- Whether a request can be traced back to the start of a session: it starts a graph, or goes on
where a late node has led in the course of a session that another such request has begun. -/
inductive Rooted : Request H → Prop where
  | start (g : Graph) : Rooted (.start g)
  | startAt {s : Stage H} {r : Request H} {g : Graph} {id : NodeId} {category : Category}
      {rs : List (Request H)} {due : Date} {c : Continuation} (earlier : Rooted r)
      (idle : s.interpreter.Idle) (opens : r.Opens g id category)
      (active : (s.serve r).stage.ActiveThrough rs) (planned : (due, c) ∈ s.runPlans (r :: rs)) :
      Rooted (.startAt c)

/-! ## Passes -/

theorem planned_of_idle {s : Stage H} (idle : s.interpreter.Idle) : s.planned = [] := by
  apply planned_of_visitless
  simp only [visit?, idle.1]

theorem walkPlanned_of_idle {s : Stage H} (idle : s.interpreter.Idle) (n : Nat) :
    s.walkPlanned n = [] := by
  induction n with
  | zero => rfl
  | succ n ih =>
    have resting : s.interpreter.phase ≠ .running := by simp [idle.1]
    rw [walkPlanned, planned_of_idle idle, pass_of_resting resting]
    exact ih

omit [Host H] in
theorem Proceeds.exists_walk {s : Stage H} {g : Graph} {p : Place} {legs : List Leg} {t : Turn H}
    (h : s.Proceeds g p legs t) : ∃ q, g.Walk p legs q := by
  cases h with
  | ongoing walk => exact ⟨_, walk⟩
  | ended walk => exact ⟨_, walk⟩

theorem planned_inReach {s : Stage H} {g : Graph} {p : Place} (plays : s.interpreter.Plays g p)
    (settled : s.interpreter.Settled) (near : g.Near p) {due : Date} {c : Continuation}
    (mem : (due, c) ∈ s.planned) : c.graph = g ∧ g.InReach c.node := by
  obtain ⟨proceeds, -⟩ := pass_proceeds plays settled
  unfold planned at mem
  split at mem
  · rename_i v session visit playing
    obtain rfl := plays.graph playing
    obtain ⟨-, -, graph, -⟩ := Graph.mem_planned mem
    rw [passLegs_of_visit? visit] at proceeds
    obtain ⟨q, walk⟩ := proceeds.exists_walk
    have here := (walk.inReach near).2 v (List.mem_singleton_self _)
    exact ⟨graph, here.2.linked (Graph.linked_of_mem_planned mem)⟩
  · contradiction

theorem walkPlanned_inReach {s : Stage H} {g : Graph} {p : Place}
    (plays : s.interpreter.Plays g p) (settled : s.interpreter.Settled) (near : g.Near p) {n : Nat}
    {due : Date} {c : Continuation} (mem : (due, c) ∈ s.walkPlanned n) :
    c.graph = g ∧ g.InReach c.node := by
  induction n generalizing s p with
  | zero => contradiction
  | succ n ih =>
    rcases List.mem_append.1 mem with now | later
    · exact planned_inReach plays settled near now
    · obtain ⟨proceeds, settled'⟩ := pass_proceeds plays settled
      cases proceeds with
      | ongoing walk plays' => exact ih plays' settled' (walk.inReach near).1 later
      | ended walk last idle =>
        rw [walkPlanned_of_idle idle] at later
        contradiction

/-! ## Requests -/

theorem entrance?_plays {s t : Stage H} {g : Graph} {p : Place} (plays : s.interpreter.Plays g p)
    {r : Request H} (h : s.entrance? r = some t) :
    t.interpreter.Plays g p ∧ t.interpreter.Settled := by
  rcases entrance?_eq_some h with ⟨inactive, -⟩ | ⟨elapsed, -, due⟩
  · simp [plays.isActive] at inactive
  · obtain ⟨plays', settled, -⟩ := settled?_plays plays due
    exact ⟨plays', settled⟩

theorem runPlans_inReach {s : Stage H} {g : Graph} {p : Place} (plays : s.interpreter.Plays g p)
    (near : g.Near p) {rs : List (Request H)} (active : s.ActiveThrough rs) {due : Date}
    {c : Continuation} (mem : (due, c) ∈ s.runPlans rs) : c.graph = g ∧ g.InReach c.node := by
  induction rs generalizing s p with
  | nil => contradiction
  | cons r rs ih =>
    rcases List.mem_append.1 mem with now | later
    · unfold plans at now
      cases entrance : s.entrance? r with
      | none =>
        rw [entrance] at now
        contradiction
      | some t =>
        rw [entrance] at now
        obtain ⟨plays', settled⟩ := entrance?_plays plays entrance
        exact walkPlanned_inReach plays' settled near now
    · cases serves_of_plays plays r with
      | rests idle => exact absurd idle plays.not_idle
      | begins idle => exact absurd idle plays.not_idle
      | stands plays' after =>
        obtain ⟨rfl, rfl⟩ := plays.unique plays'
        exact ih after near active.2 later
      | proceeds plays' inert proceeds =>
        obtain ⟨rfl, rfl⟩ := plays.unique plays'
        cases proceeds with
        | ongoing walk after => exact ih after (walk.inReach near).1 active.2 later
        | ended walk last idle =>
          obtain rfl := eq_nil_of_idle idle active.2
          contradiction
      | finishes plays' request after =>
        obtain rfl := eq_nil_of_idle after active.2
        contradiction

/-- What is planned in the course of a whole session that begins within reach. -/
theorem runPlans_inReach_of_opens {s : Stage H} (idle : s.interpreter.Idle) {r : Request H}
    {g : Graph} {id : NodeId} {category : Category} (opens : r.Opens g id category)
    (near : g.InReach id) {rs : List (Request H)} (active : (s.serve r).stage.ActiveThrough rs)
    {due : Date} {c : Continuation} (mem : (due, c) ∈ s.runPlans (r :: rs)) :
    c.graph = g ∧ g.InReach c.node := by
  have near := Graph.near_before near category
  rcases List.mem_append.1 mem with now | later
  · rw [plans, (serve_begins idle opens).1, Option.elim_some] at now
    exact walkPlanned_inReach (s.opening_plays opens) (s.opening_settled g id category) near now
  · cases serves_of_opens idle opens with
    | rests idle closed => exact absurd opens (closed _ _ _)
    | begins idle opens' proceeds stage =>
      obtain ⟨rfl, rfl, rfl⟩ := opens.unique opens'
      rw [stage] at active later
      cases proceeds with
      | ongoing walk after => exact runPlans_inReach after (walk.inReach near).1 active later
      | ended walk last idle =>
        obtain rfl := eq_nil_of_idle idle active
        contradiction
    | stands plays => exact absurd idle plays.not_idle
    | proceeds plays => exact absurd idle plays.not_idle
    | finishes plays => exact absurd idle plays.not_idle

/-! ## Whole sessions -/

theorem Rooted.inReach {r : Request H} (rooted : Rooted r) {g : Graph} {id : NodeId}
    {category : Category} (opens : r.Opens g id category) : g.InReach id := by
  induction rooted generalizing g id category with
  | start g =>
    cases opens with
    | start first => exact Graph.inReach_start first
  | startAt earlier idle opens' active planned ih =>
    cases opens with
    | startAt found =>
      obtain ⟨graph, reached⟩ := runPlans_inReach_of_opens idle opens' (ih opens') active planned
      rwa [graph]

omit [Host H] in
theorem Comes.exists_walk {sandbox : Bool} {g : Graph} {p : Place} {legs : List Leg}
    {rs : List (Request H)} {t : Turn H} (h : Comes sandbox g p legs rs t) :
    ∃ q, g.Walk p legs q := by
  cases h with
  | ongoing walk => exact ⟨_, walk⟩
  | ended walk => exact ⟨_, walk⟩

/-- A session that can be traced back to a start visits nodes within reach. -/
theorem Rooted.visits_inReach {r : Request H} (rooted : Rooted r) {s : Stage H}
    (idle : s.interpreter.Idle) {g : Graph} {id : NodeId} {category : Category}
    (opens : r.Opens g id category) {rs : List (Request H)}
    (active : (s.serve r).stage.ActiveThrough rs) {v : Visit}
    (mem : .visit v ∈ s.runLegs (r :: rs)) : v.node ∈ g.nodes ∧ g.InReach v.node.id := by
  obtain ⟨u, comes, -⟩ := Comes.opened idle opens active
  obtain ⟨q, walk⟩ := comes.exists_walk
  exact (walk.inReach (Graph.near_before (rooted.inReach opens) category)).2 v mem

/-- The warning that no end node is within reach is given exactly if there is no path of links from
the start node to one. Then no session that can be traced back to a start visits an end node,
whatever is chosen and drawn in its course. -/
theorem endUnreachable_exact (g : Graph) :
    (.endUnreachable g.name ∈ g.warnings ↔
      ∀ n ∈ g.nodes, n.kind = .final → ¬ ∃ first, g.start? = some first ∧
        Relation.ReflTransGen g.Linked first.id n.id) ∧
    ∀ (s : Stage H) (r : Request H) (id : NodeId) (category : Category) (rs : List (Request H)),
      .endUnreachable g.name ∈ g.warnings → Rooted r → s.interpreter.Idle →
      r.Opens g id category → (s.serve r).stage.ActiveThrough rs →
      ∀ v, .visit v ∈ s.runLegs (r :: rs) → v.node.kind ≠ .final := by
  refine ⟨Graph.mem_warnings_iff, ?_⟩
  intro s r id category rs warned rooted idle opens active v visited final
  obtain ⟨own, reached⟩ := rooted.visits_inReach idle opens active visited
  exact Graph.mem_warnings_iff.1 warned v.node own final reached

/-- A letter that is answered on the next day, again and again. Only a node aside is linked to the
end. -/
def letters : Graph where
  name := "letters"
  nodes := [⟨"start", .start "daily"⟩, ⟨"send", .late [⟨.day, 1⟩]⟩,
    ⟨"reply", .message none "A letter!" ["Reply"] none⟩, ⟨"aside", .shop []⟩, ⟨"end", .final⟩]
  links := [⟨"start", "start", "send"⟩, ⟨"send", "infos 0", "reply"⟩,
    ⟨"reply", "choices 0", "send"⟩, ⟨"aside", "output", "end"⟩]
  valid := Document.fault?_eq_none (by decide)

theorem letters_unended : ∀ n ∈ letters.nodes, n.kind = .final → ¬ letters.InReach n.id := by
  intro n own final reached
  have begins : ∀ first, letters.start? = some first → first.id ∈ ["start", "send", "reply"] := by
    rintro first ⟨⟩
    decide
  have among := reached.mem_of_closed begins (by decide)
  have aside : ∀ n ∈ letters.nodes, n.kind = .final → n.id ∉ ["start", "send", "reply"] := by
    decide
  exact aside n own final among

theorem endUnreachable_exact_letters :
    let today : Date := ⟨738886, by decide, by decide⟩
    let s : Stage Recorder := fresh ⟨false, 5, 8, some 7⟩ (.ofSeed 7) ⟨today, #[], false⟩
    .endUnreachable letters.name ∈ letters.warnings ∧
      ∀ v, .visit v ∈ s.runLegs [.startAt ⟨letters, "reply", "daily"⟩, .choose 0, .tick 5] →
        v.node.kind ≠ .final := by
  intro today s
  have idle : s.interpreter.Idle := fresh_idle _ _ _
  have warned : .endUnreachable letters.name ∈ letters.warnings :=
    Graph.mem_warnings_iff.2 letters_unended
  have opens : (Request.start letters : Request Recorder).Opens letters "start" "daily" :=
    .start rfl
  have active : (s.serve (.start letters)).stage.ActiveThrough [] := trivial
  have entries : (s.runPlans [.start letters]).map (fun e => (e.2.node, e.2.category)) =
      [("reply", "daily")] := by decide +kernel
  obtain ⟨⟨due, graph, node, category⟩, planned, same⟩ :=
    List.exists_of_mem_map (entries ▸ List.mem_singleton_self ("reply", "daily"))
  obtain ⟨rfl, rfl⟩ := Prod.mk.inj same
  have begins := (Rooted.start letters).inReach opens
  obtain ⟨rfl, -⟩ := runPlans_inReach_of_opens idle opens begins active planned
  have late : Rooted (Request.startAt ⟨letters, "reply", "daily"⟩ : Request Recorder) :=
    .startAt (.start letters) idle opens active planned
  have opens' : (Request.startAt ⟨letters, "reply", "daily"⟩ : Request Recorder).Opens letters
      "reply" "daily" := .startAt (c := ⟨letters, "reply", "daily"⟩) rfl
  have active' : (s.serve (.startAt ⟨letters, "reply", "daily"⟩)).stage.ActiveThrough
      [.choose 0, .tick 5] := ⟨rfl, rfl, trivial⟩
  obtain ⟨-, unended⟩ := endUnreachable_exact (H := Recorder) letters
  exact ⟨warned, unended s _ _ _ _ warned late idle opens' active'⟩

end Storyline.Stage
