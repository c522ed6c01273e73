import Storyline.Proofs.Interpreter.Progress

/-!
# Requests

A run of an interpreter is a list of requests, of any kind and in any order. Between them the host
and the subscribers may change in any way.

* `Stage.Serves`: what a request can do, in five cases.
* `Stage.serves`: a request to an interpreter that is idle or plays does one of these.
* `Stage.serveAll_coherent`: an interpreter is always idle or plays.
-/

namespace Storyline.Stage

/-- What can be asked of an interpreter, or happen beside it. -/
inductive Request (H : Type) where
  | start (graph : Graph)
  | startAt (continuation : Continuation)
  | tick (elapsed : Nat)
  | choose (choice : Nat)
  | skipEnded
  | finish
  | requestEnd
  -- the agenda from outside
  | schedule (due : Date) (continuation : Continuation)
  | takeDue (today : Date)
  -- the host and the subscribers
  | change (f : H → H)
  | listen (f : Notifier → Notifier)

variable {H : Type}

/-- Which session a request asks for. -/
inductive Request.Opens : Request H → Graph → NodeId → Category → Prop where
  | start {g : Graph} {id : NodeId} {category : Category}
      (first : g.start? = some ⟨id, .start category⟩) : Opens (.start g) g id category
  | startAt {c : Continuation} {node : Node} (found : c.graph.node? c.node = some node) :
      Opens (.startAt c) c.graph c.node c.category

/-- The agenda after a request to the agenda. -/
def Request.rearrange : Request H → Agenda → Agenda
  | .schedule due c, a => a.schedule due c
  | .takeDue today, a => (a.takeDue? today).elim a Prod.snd
  | _, a => a

def Request.asksEnd : Request H → Bool
  | .requestEnd => true
  | _ => false

theorem Request.Opens.unique {r : Request H} {g g' : Graph} {id id' : NodeId}
    {category category' : Category} (h : r.Opens g id category) (h' : r.Opens g' id' category') :
    g = g' ∧ id = id' ∧ category = category' := by
  cases h with
  | start first =>
    cases h' with
    | start first' =>
      obtain ⟨rfl, same⟩ := Node.mk.inj (Option.some.inj (first.symm.trans first'))
      exact ⟨rfl, rfl, Kind.start.inj same⟩
  | startAt found =>
    cases h' with
    | startAt found' => exact ⟨rfl, rfl, rfl⟩

variable [Host H]

def serve (s : Stage H) : Request H → Turn H
  | .start g => (s.start g).2
  | .startAt c => (s.startAt c).2
  | .tick elapsed => s.tick elapsed
  | .choose choice => s.choose choice
  | .skipEnded => s.skipEnded
  | .finish => s.finish
  | .requestEnd => .still (s.modify .requestEnd)
  | .schedule due c => .still (s.modify fun i => { i with agenda := i.agenda.schedule due c })
  | .takeDue today => .still (s.modify fun i =>
      { i with agenda := (i.agenda.takeDue? today).elim i.agenda Prod.snd })
  | .change f => .still { s with host := f s.host }
  | .listen f => .still (s.modify fun i => { i with notifier := f i.notifier })

def serveAll : Stage H → List (Request H) → Turn H
  | s, [] => .still s
  | s, r :: rs => (s.serve r).andThen fun s => s.serveAll rs

def fresh (settings : Settings) (entropy : Generator) (host : H) : Stage H :=
  ⟨.new settings entropy, host⟩

/-! ## Where the walk begins -/

/-- What comes before the walk of a new session. -/
def opening (s : Stage H) (session : Session) : Turn H :=
  let s := s.modify fun i => { i with session := some session, phase := .running }
  (s.send (.started session.category)).andThen (·.call (.pause true))

/-- The stage at which a tick enters the walk, if the session has settled by then. -/
def settled? (s : Stage H) (elapsed : Nat) : Option (Stage H) :=
  match s.interpreter.phase, s.interpreter.session with
  | .running, some session =>
    match session.settle with
    | none => some s
    | some left =>
      if elapsed < left then none
      else some (s.modify fun i => { i with session := some { session with settle := none } })
  | .running, none => some s
  | _, _ => none

/-- The stage at which a request enters the walk, if it does. -/
def entrance? (s : Stage H) : Request H → Option (Stage H)
  | .start g =>
    if s.interpreter.isActive then none
    else g.start?.map fun node =>
      (s.opening (.at g node.id (node.kind.recategorize defaultCategory))).stage
  | .startAt c =>
    if s.interpreter.isActive then none
    else (c.graph.node? c.node).map fun _ => (s.opening (.at c.graph c.node c.category)).stage
  | .tick elapsed => s.settled? elapsed
  | _ => none

/-! ## Legs -/

def accepts (s : Stage H) (choice : Nat) : Bool :=
  match s.interpreter.phase with
  | .paused (.choice _ choices) => choices == 0 || choice < choices
  | _ => false

/-- The legs that a request adds to the walk of a session. -/
def legs (s : Stage H) : Request H → List Leg
  | .choose choice => if s.accepts choice then [.answer choice] else []
  | .skipEnded =>
    match s.interpreter.phase with
    | .paused (.timeAdvance _) => [.arrival]
    | _ => []
  | r => (s.entrance? r).elim [] fun s => s.walkLegs s.interpreter.settings.maxSteps

/-! ## Beginning -/

theorem begin_eq (s : Stage H) (session : Session) :
    s.begin session = (s.opening session).andThen proceed := rfl

theorem opening_interpreter (s : Stage H) (session : Session) :
    (s.opening session).stage.interpreter =
      { s.interpreter with
        session := some session
        phase := .running
        notifier := s.interpreter.notifier.emit (.started session.category) } := rfl

theorem heard_opening (s : Stage H) (session : Session) :
    heard (s.opening session).events = sessionOpening session.category := rfl

theorem start_eq (s : Stage H) {g : Graph} {id : NodeId} {category : Category}
    (first : g.start? = some ⟨id, .start category⟩) :
    s.start g =
      if s.interpreter.isActive then (false, .still s)
      else (true, (s.tell (.scenarioStarted g.name category)).andThen
        (·.begin (.at g id category))) := by
  simp only [start, first]

theorem entrance?_start (s : Stage H) {g : Graph} {id : NodeId} {category : Category}
    (first : g.start? = some ⟨id, .start category⟩) :
    s.entrance? (.start g) =
      if s.interpreter.isActive then none else some (s.opening (.at g id category)).stage := by
  simp only [entrance?, first]
  rfl

omit [Host H] in
theorem settled?_eq_some {s t : Stage H} {elapsed : Nat} (h : s.settled? elapsed = some t) :
    t = s ∨ ∃ session, s.interpreter.session = some session ∧
      t = s.modify fun i => { i with session := some { session with settle := none } } := by
  unfold settled? at h
  split at h
  · rename_i session phase playing
    split at h
    · exact .inl (Option.some.inj h).symm
    · split at h
      · contradiction
      · exact .inr ⟨session, playing, (Option.some.inj h).symm⟩
  · exact .inl (Option.some.inj h).symm
  · contradiction

/-- A request enters the walk where it opens a session, or where a session has settled. -/
theorem entrance?_eq_some {s t : Stage H} {r : Request H} (h : s.entrance? r = some t) :
    (s.interpreter.isActive = false ∧ ∃ g id category, r.Opens g id category ∧
      t = (s.opening (.at g id category)).stage) ∨
      ∃ elapsed, r = .tick elapsed ∧ s.settled? elapsed = some t := by
  cases r with
  | start g =>
    obtain ⟨id, category, first⟩ := g.exists_start
    rw [entrance?_start s first] at h
    split at h
    · contradiction
    · rename_i inactive
      exact .inl ⟨by simpa using inactive, g, id, category, .start first, (Option.some.inj h).symm⟩
  | startAt c =>
    simp only [entrance?] at h
    split at h
    · contradiction
    · rename_i inactive
      obtain ⟨node, found, rfl⟩ := Option.map_eq_some_iff.1 h
      exact .inl ⟨by simpa using inactive, _, _, _, .startAt found, rfl⟩
  | tick elapsed => exact .inr ⟨elapsed, rfl, h⟩
  | _ => simp [entrance?] at h

theorem serve_begins {s : Stage H} (idle : s.interpreter.Idle) {r : Request H} {g : Graph}
    {id : NodeId} {category : Category} (opens : r.Opens g id category) :
    s.entrance? r = some (s.opening (.at g id category)).stage ∧
      (s.serve r).stage = (s.opening (.at g id category)).stage.proceed.stage ∧
      heard (s.serve r).events =
        sessionOpening category ++ heard (s.opening (.at g id category)).stage.proceed.events := by
  have inactive : s.interpreter.isActive = false := by simp [Interpreter.isActive, idle.2]
  cases opens with
  | start first =>
    simp [entrance?_start s first, serve, start_eq s first, inactive, begin_eq, tell,
      heard_opening, Session.at]
  | startAt found =>
    simp [entrance?, serve, startAt, inactive, found, begin_eq, tell, heard_opening, Session.at]

theorem opening_plays {s : Stage H} {r : Request H} {g : Graph} {id : NodeId}
    {category : Category} (opens : r.Opens g id category) :
    (s.opening (.at g id category)).stage.interpreter.Plays g (.before category (some id)) := by
  apply Interpreter.Plays.running rfl rfl
  intro id' same
  obtain rfl := Option.some.inj same
  cases opens with
  | start first => exact ⟨_, g.node?_of_start? first⟩
  | startAt found => exact ⟨_, found⟩

theorem opening_settled (s : Stage H) (g : Graph) (id : NodeId) (category : Category) :
    (s.opening (.at g id category)).stage.interpreter.Settled := by
  simp [Interpreter.Settled, opening_interpreter, Session.at]

/-! ## All requests -/

inductive Serves (s : Stage H) (r : Request H) (t : Turn H) : Prop where
  /-- Nothing is being played, and nothing begins. -/
  | rests (idle : s.interpreter.Idle) (closed : ∀ g id category, ¬ r.Opens g id category)
      (after : t.stage.interpreter.Idle)
      (settings : t.stage.interpreter.settings = s.interpreter.settings)
      (flag : t.stage.interpreter.endRequested = (s.interpreter.endRequested || r.asksEnd))
      (agenda : t.stage.interpreter.agenda = r.rearrange s.interpreter.agenda)
      (legs : s.legs r = []) (silent : heard t.events = [])
  | begins {g : Graph} {id : NodeId} {category : Category} {u : Turn H}
      (idle : s.interpreter.Idle) (opens : r.Opens g id category)
      (proceeds : s.Proceeds g (.before category (some id)) (s.legs r) u)
      (stage : t.stage = u.stage)
      (events : heard t.events = sessionOpening category ++ heard u.events)
  /-- The session is left alone. -/
  | stands {g : Graph} {p : Place} (plays : s.interpreter.Plays g p)
      (after : t.stage.interpreter.Plays g p)
      (settings : t.stage.interpreter.settings = s.interpreter.settings)
      (flag : t.stage.interpreter.endRequested = (s.interpreter.endRequested || r.asksEnd))
      (agenda : t.stage.interpreter.agenda = r.rearrange s.interpreter.agenda)
      (legs : s.legs r = []) (silent : heard t.events = [])
  | proceeds {g : Graph} {p : Place} (plays : s.interpreter.Plays g p) (inert : r.asksEnd = false)
      (proceeds : s.Proceeds g p (s.legs r) t)
  | finishes {g : Graph} {p : Place} (plays : s.interpreter.Plays g p) (request : r = .finish)
      (after : t.stage.interpreter.Idle)
      (settings : t.stage.interpreter.settings = s.interpreter.settings)
      (flag : t.stage.interpreter.endRequested = false)
      (agenda : t.stage.interpreter.agenda = s.interpreter.agenda)
      (legs : s.legs r = [])
      (events : heard t.events =
        sessionEnding s.interpreter.settings.sandbox s.interpreter.endRequested p.category)

/-- A request that leaves phase and session alone. -/
theorem serves_aside {s : Stage H} (coherent : s.interpreter.Coherent) {r : Request H} {t : Turn H}
    (closed : s.interpreter.Idle → ∀ g id category, ¬ r.Opens g id category)
    (phase : t.stage.interpreter.phase = s.interpreter.phase)
    (session : t.stage.interpreter.session = s.interpreter.session)
    (settings : t.stage.interpreter.settings = s.interpreter.settings)
    (flag : t.stage.interpreter.endRequested = (s.interpreter.endRequested || r.asksEnd))
    (agenda : t.stage.interpreter.agenda = r.rearrange s.interpreter.agenda)
    (legs : s.legs r = []) (silent : heard t.events = []) : s.Serves r t := by
  rcases coherent with idle | ⟨g, p, plays⟩
  · have after : t.stage.interpreter.Idle := ⟨phase.trans idle.1, session.trans idle.2⟩
    exact .rests idle (closed idle) after settings flag agenda legs silent
  · exact .stands plays (plays.congr phase session) settings flag agenda legs silent

/-- A request that is passed over. -/
theorem serves_ignored {s : Stage H} (coherent : s.interpreter.Coherent) {r : Request H}
    {t : Turn H} (closed : s.interpreter.Idle → ∀ g id category, ¬ r.Opens g id category)
    (inert : r.asksEnd = false) (keeps : ∀ a, r.rearrange a = a) (legs : s.legs r = [])
    (stage : t.stage = s) (silent : heard t.events = []) : s.Serves r t := by
  subst stage
  apply serves_aside coherent closed rfl rfl rfl _ _ legs silent
  · rw [inert, Bool.or_false]
  · rw [keeps]

theorem serves_of_opens {s : Stage H} (idle : s.interpreter.Idle) {r : Request H} {g : Graph}
    {id : NodeId} {category : Category} (opens : r.Opens g id category) :
    s.Serves r (s.serve r) := by
  obtain ⟨entrance, stage, events⟩ := serve_begins idle opens
  have proceeds := walk_proceeds (s.opening_plays opens) (s.opening_settled g id category)
    (s.opening (.at g id category)).stage.interpreter.settings.maxSteps
  have legs : s.legs r = walkLegs
      (s.opening (.at g id category)).stage.interpreter.settings.maxSteps
      (s.opening (.at g id category)).stage := by
    cases opens <;> simp only [legs, entrance, Option.elim_some]
  rw [← legs] at proceeds
  exact .begins idle opens (proceeds.of_eq rfl rfl rfl) stage events

theorem serves_of_closed {s : Stage H} (idle : s.interpreter.Idle) {r : Request H}
    (closed : ∀ g id category, ¬ r.Opens g id category) : s.Serves r (s.serve r) := by
  have inactive : s.interpreter.isActive = false := by simp [Interpreter.isActive, idle.2]
  have coherent : s.interpreter.Coherent := .inl idle
  cases r with
  | start g =>
    obtain ⟨id, category, first⟩ := g.exists_start
    exact absurd (.start first) (closed _ _ _)
  | startAt c =>
    cases found : c.graph.node? c.node with
    | some node => exact absurd (.startAt found) (closed _ _ _)
    | none =>
      apply serves_ignored coherent (fun _ => closed) rfl (fun _ => rfl)
      · simp [legs, entrance?, found]
      · simp [serve, startAt, inactive, found, tell]
      · simp [serve, startAt, inactive, found, tell]
  | tick elapsed =>
    have still : s.tick elapsed = .still s := by simp only [tick, idle.1]
    apply serves_ignored coherent (fun _ => closed) rfl (fun _ => rfl)
    · simp [legs, entrance?, settled?, idle.1]
    · rw [serve, still, Turn.stage_still]
    · rw [serve, still, Turn.events_still, heard_nil]
  | choose choice =>
    apply serves_ignored coherent (fun _ => closed) rfl (fun _ => rfl)
    · simp [legs, accepts, idle.1]
    · simp [serve, choose, idle.1, tell]
    · simp [serve, choose, idle.1, tell]
  | skipEnded =>
    have still : s.skipEnded = .still s := by simp only [skipEnded, idle.1]
    apply serves_ignored coherent (fun _ => closed) rfl (fun _ => rfl)
    · simp only [legs, idle.1]
    · rw [serve, still, Turn.stage_still]
    · rw [serve, still, Turn.events_still, heard_nil]
  | finish =>
    apply serves_ignored coherent (fun _ => closed) rfl (fun _ => rfl) rfl
    · rw [serve, finish_idle idle.2, Turn.stage_still]
    · rw [serve, finish_idle idle.2, Turn.events_still, heard_nil]
  | requestEnd =>
    exact serves_aside coherent (fun _ => closed) rfl rfl rfl (Bool.or_true _).symm rfl rfl rfl
  | _ =>
    exact serves_aside coherent (fun _ => closed) rfl rfl rfl (Bool.or_false _).symm rfl rfl rfl

theorem serves_of_idle {s : Stage H} (idle : s.interpreter.Idle) (r : Request H) :
    s.Serves r (s.serve r) := by
  by_cases opens : ∃ g id category, r.Opens g id category
  · obtain ⟨g, id, category, opens⟩ := opens
    exact serves_of_opens idle opens
  · apply serves_of_closed idle
    intro g id category h
    exact opens ⟨g, id, category, h⟩

omit [Host H] in
theorem continueThrough_interpreter {s : Stage H} {session : Session}
    (h : s.interpreter.session = some session) (id : NodeId) (outlet : String) :
    (s.continueThrough id outlet).interpreter =
      { s.interpreter with
        phase := .running
        session := some { session with
          current := (session.graph.next? id outlet).map Node.id
          settle := some s.interpreter.settings.resumeDelay } } := by
  simp only [continueThrough, modify, h]

theorem serves_of_answer {s : Stage H} {r : Request H} {t : Turn H} {g : Graph}
    {category : Category} {suspension : Suspension} {leg : Leg} {outlet : String}
    (plays : s.interpreter.Plays g (.awaiting category suspension))
    (leads : g.Leads (.awaiting category suspension) leg
      (.before category ((g.next? suspension.node outlet).map Node.id)))
    (inert : r.asksEnd = false) (legs : s.legs r = [leg])
    (stage : t.stage.interpreter = (s.continueThrough suspension.node outlet).interpreter)
    (events : heard t.events = leg.calls.map .call) : s.Serves r t := by
  cases id plays with
  | paused phase session awaits =>
    rw [continueThrough_interpreter session] at stage
    apply Serves.proceeds plays inert
    rw [legs]
    refine .ongoing leads.walk ?_ ?_ ?_ ?_ ?_
    · rw [stage]
      exact .running rfl rfl leads.holds
    · rw [stage]
    · rw [stage]
    · rw [stage]
      exact .refl _ _ _
    · simpa using events

theorem serves_of_choice {s : Stage H} {g : Graph} {category : Category} {id : NodeId}
    {choices : Nat} (plays : s.interpreter.Plays g (.awaiting category (.choice id choices)))
    (choice : Nat) : s.Serves (.choose choice) (s.choose choice) := by
  have phase : s.interpreter.phase = .paused (.choice id choices) := by
    cases plays
    assumption
  by_cases unknown : 0 < choices ∧ choices ≤ choice
  · have rejected : s.accepts choice = false := by
      simp [accepts, phase]
      omega
    refine .stands plays ?_ ?_ ?_ ?_ ?_ ?_ <;>
      simp [choose, phase, unknown, legs, rejected, tell, Request.asksEnd, Request.rearrange, plays]
  · have accepted : s.accepts choice = true := by
      simp [accepts, phase]
      omega
    have legs : s.legs (.choose choice) = [.answer choice] := by simp [legs, accepted]
    have events : heard (s.choose choice).events = (Leg.answer choice).calls.map .call := by
      simp only [choose, phase, unknown, if_false]
      rfl
    rcases Nat.eq_zero_or_pos choices with rfl | some
    · apply serves_of_answer plays .acknowledge rfl legs _ events
      simp only [choose, phase, unknown, if_false]
      rfl
    · have bound : choice < choices := by omega
      apply serves_of_answer plays (.choice bound) rfl legs _ events
      simp only [choose, phase, if_neg unknown, if_pos some]
      rfl

theorem tick_eq_proceed {s t : Stage H} {elapsed : Nat} (h : s.settled? elapsed = some t) :
    s.tick elapsed = t.proceed := by
  unfold settled? at h
  unfold tick
  split at h
  · rename_i session phase hs
    simp only [phase, hs]
    cases settle : session.settle with
    | none =>
      simp only [settle, Option.some.injEq] at h
      subst h
      rfl
    | some left =>
      simp only [settle] at h
      split at h
      · contradiction
      · rename_i late
        obtain rfl := Option.some.inj h
        simp only [late, if_false]
  · rename_i phase hs
    obtain rfl := Option.some.inj h
    simp only [phase, hs]
  · contradiction

theorem tick_silent {s : Stage H} {elapsed : Nat} (h : s.settled? elapsed = none) :
    (s.tick elapsed).events = [] := by
  unfold settled? at h
  unfold tick
  cases phase : s.interpreter.phase with
  | running =>
    cases hs : s.interpreter.session with
    | none => simp [phase, hs] at h
    | some session =>
      cases settle : session.settle with
      | none => simp [phase, hs, settle] at h
      | some left =>
        have early : elapsed < left := by simpa [phase, hs, settle] using h
        simp [settle, early]
  | _ => rfl

omit [Host H] in
theorem settled?_plays {s t : Stage H} {elapsed : Nat} {g : Graph} {p : Place}
    (plays : s.interpreter.Plays g p) (h : s.settled? elapsed = some t) :
    t.interpreter.Plays g p ∧ t.interpreter.Settled ∧
      t.interpreter.settings = s.interpreter.settings ∧
      t.interpreter.endRequested = s.interpreter.endRequested ∧
      t.interpreter.agenda = s.interpreter.agenda := by
  cases id plays with
  | paused phase session awaits => simp [settled?, phase] at h
  | @running category next settle phase session holds =>
    cases settle with
    | none =>
      simp only [settled?, phase, session, Option.some.injEq] at h
      subst h
      exact ⟨plays, by simp [Interpreter.Settled, session], rfl, rfl, rfl⟩
    | some left =>
      simp only [settled?, phase, session] at h
      split at h
      · contradiction
      · obtain rfl := Option.some.inj h
        exact ⟨.running phase rfl holds, by simp [Interpreter.Settled, modify], rfl, rfl, rfl⟩

/-- While a session has not settled, a tick only shortens the settling time. -/
theorem settling_of_unsettled {s : Stage H} {elapsed : Nat} {g : Graph}
    {category : Category} {next : Option NodeId}
    (plays : s.interpreter.Plays g (.before category next)) (h : s.settled? elapsed = none) :
    ∃ left, s.interpreter.session = some ⟨g, next, category, some left⟩ ∧ elapsed < left ∧
      s.tick elapsed = .still (s.modify fun i =>
        { i with session := some ⟨g, next, category, some (left - elapsed)⟩ }) := by
  cases plays with
  | @running _ _ settle phase session holds =>
    cases settle with
    | none => simp [settled?, phase, session] at h
    | some left =>
      have early : elapsed < left := by
        simp only [settled?, phase, session] at h
        by_contra late
        simp [late] at h
      exact ⟨left, session, early, by simp only [tick, phase, session, early, if_true]⟩

theorem serves_of_tick {s : Stage H} {g : Graph} {p : Place} (plays : s.interpreter.Plays g p)
    (elapsed : Nat) : s.Serves (.tick elapsed) (s.tick elapsed) := by
  cases due : s.settled? elapsed with
  | some t =>
    obtain ⟨plays', settled, settings, flag, agenda⟩ := settled?_plays plays due
    have proceeds := walk_proceeds plays' settled t.interpreter.settings.maxSteps
    have legs : s.legs (.tick elapsed) = t.walkLegs t.interpreter.settings.maxSteps := by
      simp only [legs, entrance?, due, Option.elim_some]
    rw [← legs] at proceeds
    rw [tick_eq_proceed due]
    exact .proceeds plays rfl (proceeds.of_eq settings flag agenda)
  | none =>
    have legs : s.legs (.tick elapsed) = [] := by
      simp only [legs, entrance?, due, Option.elim_none]
    cases id plays with
    | paused phase session awaits =>
      have still : s.tick elapsed = .still s := by simp only [tick, phase]
      rw [still]
      exact .stands plays plays rfl (Bool.or_false _).symm rfl legs rfl
    | running phase session holds =>
      obtain ⟨left, -, -, still⟩ := settling_of_unsettled plays due
      rw [still]
      exact .stands plays (.running phase rfl holds) rfl (Bool.or_false _).symm rfl legs rfl

/-- A request that is passed over while a session is being played. -/
theorem serves_of_active {s : Stage H} {g : Graph} {p : Place} (plays : s.interpreter.Plays g p)
    {r : Request H} {t : Turn H} (inert : r.asksEnd = false) (keeps : ∀ a, r.rearrange a = a)
    (legs : s.legs r = []) (stage : t.stage = s) (silent : heard t.events = []) : s.Serves r t :=
  serves_ignored (.inr ⟨g, p, plays⟩) (fun idle => absurd idle plays.not_idle) inert keeps legs
    stage silent

theorem serves_of_choose {s : Stage H} {g : Graph} {p : Place} (plays : s.interpreter.Plays g p)
    (choice : Nat) : s.Serves (.choose choice) (s.choose choice) := by
  cases id plays with
  | running phase session holds =>
    apply serves_of_active plays rfl (fun _ => rfl)
    · simp [legs, accepts, phase]
    · simp [choose, phase, tell]
    · simp [choose, phase, tell]
  | @paused category suspension phase session awaits =>
    cases suspension with
    | choice id choices => exact serves_of_choice plays choice
    | timeAdvance id =>
      apply serves_of_active plays rfl (fun _ => rfl)
      · simp [legs, accepts, phase]
      · simp [choose, phase, tell]
      · simp [choose, phase, tell]

theorem serves_of_skipEnded {s : Stage H} {g : Graph} {p : Place}
    (plays : s.interpreter.Plays g p) : s.Serves .skipEnded s.skipEnded := by
  cases id plays with
  | running phase session holds =>
    have still : s.skipEnded = .still s := by simp only [skipEnded, phase]
    rw [still]
    exact serves_of_active plays rfl (fun _ => rfl) (by simp only [legs, phase]) rfl rfl
  | @paused category suspension phase session awaits =>
    cases suspension with
    | choice id choices =>
      have still : s.skipEnded = .still s := by simp only [skipEnded, phase]
      rw [still]
      exact serves_of_active plays rfl (fun _ => rfl) (by simp only [legs, phase]) rfl rfl
    | timeAdvance id =>
      apply serves_of_answer plays .arrival rfl
      · simp only [legs, phase]
      · simp only [skipEnded, phase]
        rfl
      · simp only [skipEnded, phase]
        rfl

theorem serves_of_plays {s : Stage H} {g : Graph} {p : Place} (plays : s.interpreter.Plays g p)
    (r : Request H) : s.Serves r (s.serve r) := by
  have active := plays.isActive
  have coherent : s.interpreter.Coherent := .inr ⟨g, p, plays⟩
  have busy (idle : s.interpreter.Idle) : ∀ g id category, ¬ r.Opens g id category :=
    absurd idle plays.not_idle
  cases r with
  | start g' =>
    have still : (s.start g').2 = .still s := by simp only [start, active, if_true]
    rw [serve, still]
    exact serves_of_active plays rfl (fun _ => rfl) (by simp [legs, entrance?, active]) rfl rfl
  | startAt c =>
    have still : (s.startAt c).2 = .still s := by simp only [startAt, active, if_true]
    rw [serve, still]
    exact serves_of_active plays rfl (fun _ => rfl) (by simp [legs, entrance?, active]) rfl rfl
  | tick elapsed => exact serves_of_tick plays elapsed
  | choose choice => exact serves_of_choose plays choice
  | skipEnded => exact serves_of_skipEnded plays
  | finish =>
    obtain ⟨session, playing, category⟩ := Option.map_eq_some_iff.1 plays.category?
    refine .finishes plays rfl ?_ ?_ ?_ ?_ rfl ?_
    · simp [serve, Interpreter.Idle, finish_interpreter playing]
    · simp [serve, finish_interpreter playing]
    · simp [serve, finish_interpreter playing]
    · simp [serve, finish_interpreter playing]
    · rw [serve, finish_heard playing, category]
  | requestEnd => exact serves_aside coherent busy rfl rfl rfl (Bool.or_true _).symm rfl rfl rfl
  | _ => exact serves_aside coherent busy rfl rfl rfl (Bool.or_false _).symm rfl rfl rfl

/-- A request to an interpreter that is idle or plays does one of five things. -/
theorem serves {s : Stage H} (coherent : s.interpreter.Coherent) (r : Request H) :
    s.Serves r (s.serve r) := by
  rcases coherent with idle | ⟨g, p, plays⟩
  · exact serves_of_idle idle r
  · exact serves_of_plays plays r

omit [Host H] in
theorem Proceeds.coherent {s : Stage H} {g : Graph} {p : Place} {legs : List Leg} {t : Turn H}
    (h : s.Proceeds g p legs t) : t.stage.interpreter.Coherent := by
  cases h with
  | ongoing walk plays => exact .inr ⟨_, _, plays⟩
  | ended walk last idle => exact .inl idle

theorem Serves.coherent {s : Stage H} {r : Request H} {t : Turn H} (h : s.Serves r t) :
    t.stage.interpreter.Coherent := by
  cases h with
  | rests idle closed after => exact .inl after
  | begins idle opens proceeds stage =>
    rw [stage]
    exact proceeds.coherent
  | stands plays after => exact .inr ⟨_, _, after⟩
  | proceeds plays inert proceeds => exact proceeds.coherent
  | finishes plays request after => exact .inl after

theorem serveAll_append (s : Stage H) (rs rs' : List (Request H)) :
    s.serveAll (rs ++ rs') = (s.serveAll rs).andThen fun s => s.serveAll rs' := by
  induction rs generalizing s with
  | nil => simp [serveAll]
  | cons r rs ih =>
    simp only [List.cons_append, serveAll, Turn.andThen_assoc]
    exact Turn.andThen_congr (ih _)

theorem serveAll_concat (s : Stage H) (rs : List (Request H)) (r : Request H) :
    s.serveAll (rs ++ [r]) = (s.serveAll rs).andThen fun s => s.serve r := by
  rw [serveAll_append]
  exact Turn.andThen_congr (by simp [serveAll])

theorem serveAll_coherent {s : Stage H} (coherent : s.interpreter.Coherent)
    (rs : List (Request H)) : (s.serveAll rs).stage.interpreter.Coherent := by
  induction rs generalizing s with
  | nil => exact coherent
  | cons r rs ih => exact ih (serves coherent r).coherent

theorem serve_settings {s : Stage H} (coherent : s.interpreter.Coherent) (r : Request H) :
    (s.serve r).stage.interpreter.settings = s.interpreter.settings := by
  cases serves coherent r with
  | rests _ _ _ settings => exact settings
  | begins _ _ proceeds stage =>
    rw [stage]
    cases proceeds <;> assumption
  | stands _ _ settings => exact settings
  | proceeds _ _ proceeds => cases proceeds <;> assumption
  | finishes _ _ _ settings => exact settings

theorem serveAll_settings {s : Stage H} (coherent : s.interpreter.Coherent)
    (rs : List (Request H)) :
    (s.serveAll rs).stage.interpreter.settings = s.interpreter.settings := by
  induction rs generalizing s with
  | nil => rfl
  | cons r rs ih => exact (ih (serves coherent r).coherent).trans (serve_settings coherent r)

omit [Host H] in
theorem fresh_idle (settings : Settings) (entropy : Generator) (host : H) :
    (fresh settings entropy host).interpreter.Idle :=
  ⟨rfl, rfl⟩

end Storyline.Stage
