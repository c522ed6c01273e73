import Storyline.Proofs.Interpreter.Request

/-!
# Sessions as walks

From its start to its end a session is one walk of its graph, however it is cut into requests.

* `Stage.serveAll_walk`: a session that is being played goes on with its walk.
* `Stage.session_walk`: a whole session.
-/

namespace Storyline.Stage

variable {H : Type} [Host H]

def runLegs : Stage H → List (Request H) → List Leg
  | _, [] => []
  | s, r :: rs => s.legs r ++ runLegs (s.serve r).stage rs

theorem runLegs_append (s : Stage H) (rs rs' : List (Request H)) :
    s.runLegs (rs ++ rs') = s.runLegs rs ++ (s.serveAll rs).stage.runLegs rs' := by
  induction rs generalizing s with
  | nil => rfl
  | cons r rs ih => simp [runLegs, serveAll, ih]

/-- Whether a session is active at each of the requests. -/
def ActiveThrough : Stage H → List (Request H) → Prop
  | _, [] => True
  | s, r :: rs => s.interpreter.isActive ∧ ActiveThrough (s.serve r).stage rs

/-- How far a session has come that stood at a place: it stands at another one, or it has ended at
the last request. -/
inductive Comes (sandbox : Bool) (g : Graph) (p : Place) (legs : List Leg) (rs : List (Request H))
    (t : Turn H) : Prop where
  | ongoing {q : Place} (walk : g.Walk p legs q) (plays : t.stage.interpreter.Plays g q)
      (events : heard t.events = (legs.flatMap Leg.calls).map .call)
  | ended {q : Place} (walk : g.Walk p legs q) (idle : t.stage.interpreter.Idle)
      (reason : q.HasEnded ∨ rs.getLast? = some .finish)
      (events : ∃ last, heard t.events =
        (legs.flatMap Leg.calls).map .call ++ sessionEnding sandbox last q.category)

theorem eq_nil_of_idle {s : Stage H} (idle : s.interpreter.Idle) {rs : List (Request H)}
    (active : s.ActiveThrough rs) : rs = [] := by
  cases rs with
  | nil => rfl
  | cons r rs => simp [ActiveThrough, Interpreter.isActive, idle.2] at active

omit [Host H] in
theorem Comes.after {sandbox : Bool} {g : Graph} {p q : Place} {legs legs' : List Leg}
    {r : Request H} {rs : List (Request H)} {t : Turn H} {f : Stage H → Turn H}
    (walk : g.Walk p legs q) (events : heard t.events = (legs.flatMap Leg.calls).map .call)
    (h : Comes sandbox g q legs' rs (f t.stage)) :
    Comes sandbox g p (legs ++ legs') (r :: rs) (t.andThen f) := by
  cases h with
  | ongoing walk' plays events' =>
    refine .ongoing (walk.append walk') plays ?_
    simp [events, events']
  | ended walk' idle reason events' =>
    refine .ended (walk.append walk') idle ?_ ?_
    · rcases reason with ended | finish
      · exact .inl ended
      · exact .inr (by rw [List.getLast?_cons, finish]; rfl)
    · obtain ⟨last, events'⟩ := events'
      exact ⟨last, by simp [events, events']⟩

theorem serveAll_walk {s : Stage H} {g : Graph} {p : Place} (plays : s.interpreter.Plays g p)
    {rs : List (Request H)} (active : s.ActiveThrough rs) :
    Comes s.interpreter.settings.sandbox g p (s.runLegs rs) rs (s.serveAll rs) := by
  induction rs generalizing s p with
  | nil => exact .ongoing .nil plays rfl
  | cons r rs ih =>
    rw [runLegs, serveAll]
    cases serves_of_plays plays r with
    | rests idle => exact absurd idle plays.not_idle
    | begins idle => exact absurd idle plays.not_idle
    | stands plays' after settings flag agenda legs silent =>
      obtain ⟨rfl, rfl⟩ := plays.unique plays'
      have rest := ih after active.2
      rw [settings] at rest
      rw [legs]
      exact rest.after .nil silent
    | proceeds plays' inert proceeds =>
      obtain ⟨rfl, rfl⟩ := plays.unique plays'
      cases proceeds with
      | ongoing walk after settings flag agenda events =>
        have rest := ih after active.2
        rw [settings] at rest
        exact rest.after walk events
      | ended walk last idle settings flag agenda events =>
        obtain rfl := eq_nil_of_idle idle active.2
        simp only [runLegs, serveAll, List.append_nil]
        exact .ended walk idle (.inl last) ⟨_, by simpa using events⟩
    | finishes plays' request after settings flag agenda legs events =>
      obtain ⟨rfl, rfl⟩ := plays.unique plays'
      obtain rfl := eq_nil_of_idle after active.2
      rw [legs]
      refine .ended .nil after (.inr (by rw [request]; rfl)) ⟨s.interpreter.endRequested, ?_⟩
      simpa [serveAll, runLegs] using events

/-! ## Whole sessions -/

theorem legs_of_opens {s : Stage H} (idle : s.interpreter.Idle) {r : Request H} {g : Graph}
    {id : NodeId} {category : Category} (opens : r.Opens g id category)
    (budget : 0 < s.interpreter.settings.maxSteps) :
    ∃ v rest, s.legs r = .visit v :: rest ∧ v.node.id = id ∧ v.category = category := by
  obtain ⟨n, steps⟩ := Nat.exists_eq_succ_of_ne_zero (Nat.ne_of_gt budget)
  obtain ⟨entrance, -⟩ := serve_begins idle opens
  have legs : s.legs r = (s.opening (.at g id category)).stage.walkLegs n.succ := by
    rw [← steps]
    cases opens <;> simp only [legs, entrance, Option.elim_some, opening_interpreter]
  cases s.opening_plays opens with
  | running phase session holds =>
    obtain ⟨node, found⟩ := holds id rfl
    obtain rfl := g.node?_id found
    rw [legs, walkLegs, passLegs_visit phase session rfl found]
    exact ⟨_, _, rfl, rfl, rfl⟩

theorem Comes.opened {s : Stage H} (idle : s.interpreter.Idle) {r : Request H} {g : Graph}
    {id : NodeId} {category : Category} (opens : r.Opens g id category) {rs : List (Request H)}
    (active : (s.serve r).stage.ActiveThrough rs) :
    ∃ u, Comes s.interpreter.settings.sandbox g (.before category (some id))
        (s.runLegs (r :: rs)) (r :: rs) u ∧ (s.serveAll (r :: rs)).stage = u.stage ∧
      heard (s.serveAll (r :: rs)).events = sessionOpening category ++ heard u.events := by
  cases serves_of_idle idle r with
  | rests idle closed => exact absurd opens (closed _ _ _)
  | @begins g' id' category' u idle opens' proceeds stage events =>
    obtain ⟨rfl, rfl, rfl⟩ := opens.unique opens'
    rw [runLegs, serveAll]
    rw [stage] at active
    refine ⟨u.andThen fun s => s.serveAll rs, ?_, ?_, ?_⟩
    · rw [stage]
      cases proceeds with
      | ongoing walk plays settings flag agenda happened =>
        have rest := serveAll_walk plays active
        rw [settings] at rest
        exact rest.after walk happened
      | ended walk last idle settings flag agenda happened =>
        obtain rfl := eq_nil_of_idle idle active
        have same : (u.andThen fun s => s.serveAll []) = u := Turn.andThen_still u
        rw [same, runLegs, List.append_nil]
        exact .ended walk idle (.inl last) ⟨_, happened⟩
    · rw [Turn.stage_andThen, Turn.stage_andThen, stage]
    · rw [Turn.events_andThen, Turn.events_andThen, heard_append, heard_append, events, stage,
        List.append_assoc]
  | stands plays => exact absurd idle plays.not_idle
  | proceeds plays => exact absurd idle plays.not_idle
  | finishes plays => exact absurd idle plays.not_idle

/-- A walk that has run out ends at the next tick for which the settling time is over. -/
theorem tick_ends {s : Stage H} {g : Graph} {p : Place} (plays : s.interpreter.Plays g p)
    (ended : p.HasEnded) (budget : 0 < s.interpreter.settings.maxSteps) {elapsed : Nat}
    (due : ∀ session left, s.interpreter.session = some session → session.settle = some left →
      left ≤ elapsed) : (s.tick elapsed).stage.interpreter.Idle := by
  obtain ⟨n, steps⟩ := Nat.exists_eq_succ_of_ne_zero (Nat.ne_of_gt budget)
  cases plays with
  | paused => exact ended.elim
  | @running category next settle phase session holds =>
    obtain rfl : next = none := ended
    obtain ⟨t, settled⟩ : ∃ t, s.settled? elapsed = some t := by
      cases settle with
      | none => exact ⟨s, by simp only [settled?, phase, session]⟩
      | some left =>
        have late : ¬ elapsed < left := Nat.not_lt.2 (due _ left session rfl)
        refine ⟨s.modify fun i => { i with session := some ⟨g, none, category, none⟩ }, ?_⟩
        simp only [settled?, phase, session, late, if_false]
    obtain ⟨plays', -, settings, -⟩ := settled?_plays (.running phase session holds) settled
    cases plays' with
    | running phase session holds =>
      rw [tick_eq_proceed settled, proceed, settings, steps, walk_succ,
        pass_runOut phase session rfl, finish_walk session]
      simp [Interpreter.Idle, finish_interpreter session]

theorem effects_opening (category : Category) :
    ((sessionOpening category).filterMap Event.call?).filter Call.isEffect = [] := rfl

theorem effects_ending (sandbox last : Bool) (category : Category) :
    ((sessionEnding sandbox last category).filterMap Event.call?).filter Call.isEffect = [] := by
  cases sandbox <;> cases last <;> rfl

omit [Host H] in
theorem Comes.effects {sandbox : Bool} {g : Graph} {p : Place} {legs : List Leg}
    {rs : List (Request H)} {t : Turn H} (h : Comes sandbox g p legs rs t) :
    (t.events.filterMap Event.call?).filter Call.isEffect =
      (legs.filterMap Leg.visit?).flatMap Visit.calls := by
  rw [← calls_heard]
  cases h with
  | ongoing walk plays events => rw [events, call_calls, effects_legs]
  | ended walk idle reason events =>
    obtain ⟨last, events⟩ := events
    rw [events, List.filterMap_append, List.filter_append, call_calls, effects_legs,
      effects_ending, List.append_nil]

omit [Host H] in
theorem Request.Opens.getLast? {r : Request H} {g : Graph} {id : NodeId} {category : Category}
    (opens : r.Opens g id category) {rs : List (Request H)}
    (finish : (r :: rs).getLast? = some .finish) : rs.getLast? = some .finish := by
  cases rs with
  | nil =>
    obtain rfl := Option.some.inj finish
    cases opens
  | cons r' rs => rwa [List.getLast?_cons_cons] at finish

/-- From its start to its end a session is one walk of its graph. Its effects are those of the
visits, in order. It ends with the walk, unless it is finished from outside. -/
theorem session_walk {s : Stage H} (idle : s.interpreter.Idle) {r : Request H} {g : Graph}
    {id : NodeId} {category : Category} (opens : r.Opens g id category)
    (budget : 0 < s.interpreter.settings.maxSteps) {rs : List (Request H)}
    (active : (s.serve r).stage.ActiveThrough rs) :
    let t := s.serveAll (r :: rs)
    let legs := s.runLegs (r :: rs)
    ∃ place, g.Walk (.before category (some id)) legs place ∧
      (∃ v rest, legs = .visit v :: rest ∧ v.node.id = id ∧ v.category = category) ∧
      (t.events.filterMap Event.call?).filter Call.isEffect =
        (legs.filterMap Leg.visit?).flatMap Visit.calls ∧
      (t.stage.interpreter.isActive = true →
        t.stage.interpreter.Plays g place ∧
        heard t.events = sessionOpening category ++ (legs.flatMap Leg.calls).map .call ∧
        (place.HasEnded → ∀ elapsed, (∀ session left, t.stage.interpreter.session = some session →
          session.settle = some left → left ≤ elapsed) →
          (t.stage.tick elapsed).stage.interpreter.Idle)) ∧
      (t.stage.interpreter.isActive = false →
        t.stage.interpreter.Idle ∧ (place.HasEnded ∨ rs.getLast? = some .finish) ∧
        ∃ last, heard t.events = sessionOpening category ++ (legs.flatMap Leg.calls).map .call ++
          sessionEnding s.interpreter.settings.sandbox last place.category) := by
  intro t legs
  obtain ⟨v, rest, first, node, under⟩ := legs_of_opens idle opens budget
  have begins : ∃ v rest, legs = .visit v :: rest ∧ v.node.id = id ∧ v.category = category :=
    ⟨v, rest ++ (s.serve r).stage.runLegs rs, by simp [legs, runLegs, first], node, under⟩
  obtain ⟨u, comes, stage, events⟩ := Comes.opened idle opens active
  have effects : (t.events.filterMap Event.call?).filter Call.isEffect =
      (legs.filterMap Leg.visit?).flatMap Visit.calls := by
    rw [← calls_heard, events, List.filterMap_append, List.filter_append, effects_opening,
      List.nil_append, calls_heard]
    exact comes.effects
  cases comes with
  | @ongoing place walk plays happened =>
    rw [← stage] at plays
    refine ⟨place, walk, begins, effects, ?_, ?_⟩
    · refine fun _ => ⟨plays, by rw [events, happened], ?_⟩
      intro ended elapsed due
      refine tick_ends plays ended ?_ due
      rwa [serveAll_settings (.inl idle) (r :: rs)]
    · intro inactive
      rw [plays.isActive] at inactive
      contradiction
  | @ended place walk idle' reason happened =>
    obtain ⟨last, happened⟩ := happened
    rw [← stage] at idle'
    refine ⟨place, walk, begins, effects, ?_, ?_⟩
    · intro playing
      have inactive : t.stage.interpreter.isActive = false := by
        simp [Interpreter.isActive, t, idle'.2]
      rw [inactive] at playing
      contradiction
    · refine fun _ => ⟨idle', ?_, last, by rw [events, happened, List.append_assoc]⟩
      rcases reason with ended | finish
      · exact .inl ended
      · exact .inr (opens.getLast? finish)

/-- A greeting with two answers, of which only the second is linked. -/
def greeting : Graph where
  name := "greeting"
  nodes := [⟨"start", .start "daily"⟩, ⟨"hello", .message none "Hello!" ["Hi", "Bye"] none⟩,
    ⟨"end", .final⟩]
  links := [⟨"start", "start", "hello"⟩, ⟨"hello", "choices 1", "end"⟩]
  valid := Document.fault?_eq_none (by decide)

theorem session_walk_greeting :
    let today : Date := ⟨738886, by decide, by decide⟩
    let s : Stage Recorder := fresh ⟨false, 5, 8, some 7⟩ (.ofSeed 7) ⟨today, #[], false⟩
    ∃ place, place.HasEnded ∧ greeting.Walk (.before "daily" (some "start"))
      (s.runLegs [.start greeting, .choose 1, .requestEnd, .tick 5]) place := by
  intro today s
  have idle : s.interpreter.Idle := fresh_idle _ _ _
  have opens : (Request.start greeting : Request Recorder).Opens greeting "start" "daily" :=
    .start rfl
  have active : (s.serve (.start greeting)).stage.ActiveThrough
      [.choose 1, .requestEnd, .tick 5] := ⟨rfl, rfl, rfl, trivial⟩
  obtain ⟨place, walk, -, -, -, ended⟩ := session_walk idle opens (by decide) active
  obtain ⟨-, reason, -⟩ := ended rfl
  exact ⟨place, reason.resolve_right (by simp), walk⟩

end Storyline.Stage
