import Storyline.Proofs.Game.LateStarts
import Storyline.Proofs.Game.Reach
import Storyline.Proofs.Interpreter.Skips

/-!
# Overdue late events

A look for late events starts the first one that is due. If its session ends within the same move,
nobody looks again before the clock has moved on, and what else is due stays behind.

* `Stage.left`: what a look leaves behind.
* `Stage.overdue_startDue`: if nothing is being played after a look, exactly this is overdue.
* `Game.overdue_iff`: the clock leaves no late event behind exactly if no look does.
-/

namespace Storyline

/-! ## Agendas -/

namespace Agenda

/-- What waits for a date that has come. -/
def overdue (a : Agenda) (today : Date) : List (Date × Continuation) :=
  a.toList.filter fun entry => entry.1 ≤ today

theorem overdue_eq_nil_iff {a : Agenda} {today : Date} :
    a.overdue today = [] ↔ ∀ entry ∈ a.toList, today < entry.1 := by
  simp only [overdue, List.filter_eq_nil_iff, decide_eq_true_eq, Date.not_le]

theorem overdue_cons (date : Date) (cs : List Continuation)
    (rest : List (Date × List Continuation)) (today : Date) :
    overdue ⟨(date, cs) :: rest⟩ today =
      (cs.map (date, ·)).filter (fun entry => entry.1 ≤ today) ++ overdue ⟨rest⟩ today := by
  rw [overdue, toList_cons, List.filter_append]
  rfl

theorem overdue_schedule (a : Agenda) {due today : Date} (later : today < due)
    (c : Continuation) : (a.schedule due c).overdue today = a.overdue today := by
  obtain ⟨buckets⟩ := a
  have early : ¬ due ≤ today := Date.not_le.2 later
  show overdue ⟨insert due c buckets⟩ today = _
  induction buckets with
  | nil => simp [insert, overdue, toList, early]
  | cons bucket rest ih =>
    obtain ⟨date, cs⟩ := bucket
    unfold insert
    split
    · simp [overdue_cons, early]
    · split
      · rename_i same
        subst same
        simp [overdue_cons, early]
      · rw [overdue_cons, overdue_cons, ih]

theorem overdue_scheduleAll (a : Agenda) {entries : List (Date × Continuation)} {today : Date}
    (later : ∀ entry ∈ entries, today < entry.1) :
    (a.scheduleAll entries).overdue today = a.overdue today := by
  induction entries generalizing a with
  | nil => rfl
  | cons entry entries ih =>
    obtain ⟨first, rest⟩ := List.forall_mem_cons.1 later
    rw [scheduleAll_cons, ih _ rest, overdue_schedule a first]

end Agenda

/-! ## Delays -/

def Kind.delays : Kind → List Delay
  | .late ds => ds
  | _ => []

namespace Graph

/-- Every delay of the graph lasts for some time. -/
def Patient (g : Graph) : Prop :=
  ∀ node ∈ g.nodes, ∀ delay ∈ node.kind.delays, delay.amount ≠ 0

instance (g : Graph) : Decidable g.Patient :=
  inferInstanceAs (Decidable (∀ node ∈ g.nodes, ∀ delay ∈ node.kind.delays, delay.amount ≠ 0))

theorem Patient.lt_of_mem_planned {g : Graph} (patient : g.Patient) {v : Visit}
    (own : v.node ∈ g.nodes) {due : Date} {c : Continuation} (mem : (due, c) ∈ g.planned v) :
    v.today < due := by
  obtain ⟨ds, delay, i, target, kind, among, -, ahead, -⟩ := exists_delay mem
  have among : delay ∈ v.node.kind.delays := by rwa [kind]
  exact Period.lt_after? (patient v.node own delay among) ahead

theorem Leads.skips {g : Graph} {p q : Place} {leg : Leg} (h : g.Leads p leg q) {days : Int}
    (mem : .advance days ∈ leg.calls) : ∃ category id, q = .awaiting category (.timeAdvance id) := by
  cases leg with
  | visit v =>
    obtain ⟨unit, amount, kind⟩ := v.timeSkip_of_advance mem
    cases h with
    | timeSkip => exact ⟨_, _, rfl⟩
    | _ => simp_all [Kind.exit?, Kind.outcomes?]
  | answer choice => simp [Leg.calls] at mem
  | arrival => contradiction

/-- A walk that makes a time skip waits for its end. -/
theorem Walk.skips {g : Graph} {p q : Place} {legs : List Leg} (h : g.Walk p legs q) {days : Int}
    (mem : .advance days ∈ legs.flatMap Leg.calls) :
    .arrival ∈ legs ∨ ∃ category id, q = .awaiting category (.timeAdvance id) := by
  induction h with
  | nil => contradiction
  | cons leads rest ih =>
    rw [List.flatMap_cons] at mem
    rcases List.mem_append.1 mem with now | later
    · obtain ⟨category, id, rfl⟩ := leads.skips now
      cases rest with
      | nil => exact .inr ⟨category, id, rfl⟩
      | cons next _ =>
        cases next
        exact .inl (List.mem_cons_of_mem _ List.mem_cons_self)
    · rcases ih later with arrival | waits
      · exact .inl (List.mem_cons_of_mem _ arrival)
      · exact .inr waits

end Graph

/-! ## The day -/

namespace Stage

variable {s : Stage Console} {r : Request Console} {g : Graph} {id : NodeId} {category : Category}

/-- A session that ends within the request that has begun it makes no time skip. -/
theorem serve_today (idle : s.interpreter.Idle) (opens : r.Opens g id category)
    (after : (s.serve r).stage.interpreter.Idle) : (s.serve r).stage.host.today = s.host.today := by
  have own : ∀ f, r ≠ .change f := by cases opens <;> simp
  cases serves_of_idle idle r with
  | rests _ closed => exact absurd opens (closed g id category)
  | begins _ opens proceeds stage events =>
    rw [(serve_faithful own).of_heard, events]
    apply Console.today_steady.performAll
    intro days mem
    rw [stage] at after
    cases proceeds with
    | ongoing walk plays => exact plays.not_idle after
    | ended walk last _ _ _ _ happened =>
      rw [happened, mem_calls] at mem
      have skip : .advance days ∈ (s.legs r).flatMap Leg.calls := by
        simpa [sessionOpening, sessionEnding] using mem
      rcases walk.skips skip with arrival | ⟨category, id, rfl⟩
      · exact s.arrival_notMem_legs (by rintro rfl; cases opens) arrival
      · exact last
  | stands plays => exact absurd idle plays.not_idle
  | proceeds plays => exact absurd idle plays.not_idle
  | finishes plays => exact absurd idle plays.not_idle

theorem lt_of_mem_planned (inPlay : s.InPlay Graph.Patient) {entry : Date × Continuation}
    (mem : entry ∈ s.planned) : s.host.today < entry.1 := by
  obtain ⟨⟨session, v, ds, playing, visit, -, among, -⟩, -⟩ := mem_planned mem
  obtain ⟨session', playing', found, -, today⟩ := visit?_eq_some visit
  obtain rfl := Option.some.inj (playing.symm.trans playing')
  have own : v.node ∈ session.graph.nodes := (Graph.node?_eq_some_iff.1 found).1
  have later := (inPlay.session session playing).lt_of_mem_planned own among
  rw [today] at later
  exact later

theorem lt_of_mem_plans (inPlay : s.InPlay Graph.Patient) (idle : s.interpreter.Idle)
    (opens : r.Opens g id category) (own : g.Patient) {entry : Date × Continuation}
    (mem : entry ∈ s.plans r) : s.host.today < entry.1 := by
  obtain ⟨entrance, -⟩ := serve_begins idle opens
  unfold plans at mem
  rw [entrance, Option.elim_some] at mem
  obtain ⟨k, -, among⟩ := mem_walkPlanned mem
  let opened := (s.opening (.at g id category)).stage
  have proceeds := walk_proceeds (s.opening_plays opens) (s.opening_settled g id category) k
  have later := lt_of_mem_planned (proceeds.inPlay own inPlay.waiting) among
  have passed : opened.host.today ≤ (opened.walk k).stage.host.today :=
    (walk_follows Console.onward_follows k opened).today
  exact Int.lt_of_le_of_lt passed later

/-! ## Looks -/

/-- What is overdue once a look has taken the late event that it starts. -/
def left (s : Stage Console) : List (Date × Continuation) :=
  s.due?.elim [] fun x => x.2.overdue s.host.today

/-- If nothing is being played after a look, what it has left behind is all that is overdue. -/
theorem overdue_startDue (tidy : s.Tidy) (inPlay : s.InPlay Graph.Patient)
    (inactive : (Director.startDue s).stage.interpreter.isActive = false) :
    (Director.startDue s).stage.interpreter.agenda.overdue
      (Director.startDue s).stage.host.today = s.left := by
  unfold left
  cases found : s.due? with
  | none =>
    rw [startDue_of_none found] at inactive ⊢
    have none : s.interpreter.agenda.takeDue? s.host.today = none := by
      unfold due? at found
      rwa [if_neg (by simpa using inactive)] at found
    exact Agenda.overdue_eq_nil_iff.2 ((Agenda.takeDue?_eq_none_iff tidy.ordered).1 none)
  | some x =>
    obtain ⟨⟨due, c⟩, rest⟩ := x
    have taken := (takeDue?_of_due? found).2
    obtain ⟨own, others⟩ := inPlay.withAgenda (Agenda.takeDue?_toList taken)
    obtain ⟨idle, opens⟩ := opens_of_due? tidy.coherent tidy.resolved found
    have coherent := (serves_of_idle idle (.startAt c)).coherent
    rw [startDue_of_some found] at inactive ⊢
    have today : ((s.withAgenda rest).serve (.startAt c)).stage.host.today = s.host.today :=
      serve_today idle opens (coherent.idle_of_inactive inactive)
    have agenda : ((s.withAgenda rest).serve (.startAt c)).stage.interpreter.agenda =
        rest.scheduleAll ((s.withAgenda rest).plans (.startAt c)) :=
      (s.withAgenda rest).serve_agenda (.startAt c)
    have later : ∀ entry ∈ (s.withAgenda rest).plans (.startAt c), s.host.today < entry.1 :=
      fun entry mem => lt_of_mem_plans others idle opens own mem
    exact (congrArg₂ Agenda.overdue agenda today).trans (rest.overdue_scheduleAll later)

theorem continueThrough_isActive (s : Stage Console) (id : NodeId) (outlet : String) :
    (s.continueThrough id outlet).interpreter.isActive = s.interpreter.isActive := by
  unfold continueThrough modify
  dsimp only
  split
  · rename_i none
    simp [Interpreter.isActive, none]
  · rename_i session playing
    simp [Interpreter.isActive, playing]

theorem choose_isActive (s : Stage Console) (choice : Nat) :
    (s.choose choice).stage.interpreter.isActive = s.interpreter.isActive := by
  unfold choose
  split
  · split
    · rfl
    · exact continueThrough_isActive _ _ _
  · rfl

theorem skipEnded_isActive (s : Stage Console) :
    s.skipEnded.stage.interpreter.isActive = s.interpreter.isActive := by
  unfold skipEnded
  split
  · exact continueThrough_isActive _ _ _
  · rfl

end Stage

/-! ## Moves -/

namespace Game

/-- The late events whose day has come and that still wait. -/
def overdue (g : Game) : List (Date × Continuation) :=
  g.stage.interpreter.agenda.overdue g.console.today

/-- What the look of the next move leaves behind, if it looks for a late event. -/
def leftOver (g : Game) : List (Date × Continuation) :=
  g.approach?.elim [] fun t => t.stage.left

theorem isActive_of_paused {g : Game} (coherent : g.stage.interpreter.Coherent)
    {suspension : Suspension} (phase : g.stage.interpreter.phase = .paused suspension) :
    g.stage.interpreter.isActive = true := by
  rcases coherent with idle | ⟨g, p, plays⟩
  · rw [idle.1] at phase
    contradiction
  · exact plays.isActive

theorem Steps.looks {P : Graph → Prop} {g : Game} {m : Move} (h : g.Steps m)
    (owns : g.director.Owns P) (ready : g.stage.Ready P) {t : Turn Console}
    (approach : g.approach? = some t) :
    t.stage.Ready P ∧ m.game.stage = (Director.startDue t.stage).stage := by
  unfold approach? at approach
  cases h with
  | ticks phase move =>
    rw [phase] at approach
    obtain rfl := Option.some.inj approach
    rw [move]
    exact ⟨Stage.act_ready ready (a := .serve (.tick frame)) ⟨fun _ => rfl, by simp⟩ nofun, rfl⟩
  | @announces day console idle alive pending move =>
    simp only [idle.1, pending, Option.map_some, Option.some.injEq] at approach
    obtain ⟨-, -, rfl⟩ := Console.nextPending?_eq_some pending
    have changed : Stage.Ready P ⟨g.stage.interpreter, { g.console with announced := day.date }⟩ :=
      ready.change (fun advancing => advancing) ready.inside
    have bounded := Director.boundaries_ready owns changed day
    rw [move, ← approach]
    exact ⟨Stage.act_ready bounded (a := .call .deductDaily) rfl trivial, rfl⟩
  | answers phase => simp [phase] at approach
  | arrives phase => simp [phase] at approach
  | waits idle alive pending => simp [idle.1, pending] at approach

/-- After a move that does not look for a late event, something is being played or a day is
pending. -/
theorem Steps.not_waits {start : Date} {g : Game} {m : Move} (h : g.Steps m)
    (underway : g.Underway start) (approach : g.approach? = none) : m.game.waits = false := by
  have busy (active : m.game.stage.interpreter.isActive = true) : m.game.waits = false := by
    simp [Game.waits, active]
  unfold approach? at approach
  cases h with
  | ticks phase => simp [phase] at approach
  | announces idle alive pending => simp [idle.1, pending] at approach
  | answers phase move =>
    apply busy
    rw [move]
    exact (g.stage.choose_isActive _).trans (isActive_of_paused underway.coherent phase)
  | arrives phase move =>
    apply busy
    have active := isActive_of_paused underway.coherent phase
    rw [move, resume_eq]
    split
    · exact (Stage.skipEnded_isActive _).trans active
    · exact active
  | waits idle alive pending tomorrow move =>
    obtain ⟨date, next, rfl⟩ := Option.map_eq_some_iff.1 tomorrow
    obtain ⟨days, announced, -⟩ := underway.announced
    have upTo : g.console.announced.day ≤ g.console.today.day := announced.upTo
    have day := Date.day_of_next? next
    have behind : m.game.console.nextPending? ≠ none := by
      rw [move, Ne, Console.nextPending?_eq_none_iff]
      show ¬ date.day ≤ g.console.announced.day
      omega
    cases found : m.game.console.nextPending? with
    | none => exact absurd found behind
    | some next => simp [Game.waits, found]

/-- When the clock is about to move on, what the last look has left behind is all that is overdue. -/
theorem Steps.overdue_of_waits {start : Date} {g : Game} {m : Move} (h : g.Steps m)
    (underway : g.Underway start) (owns : g.director.Owns Graph.Patient)
    (ready : g.stage.Ready Graph.Patient) (waits : m.game.waits = true) :
    m.game.overdue = g.leftOver := by
  unfold leftOver
  cases approach : g.approach? with
  | none =>
    rw [h.not_waits underway approach] at waits
    contradiction
  | some t =>
    obtain ⟨ready, last⟩ := h.looks owns ready approach
    have inactive : m.game.stage.interpreter.isActive = false := by
      simp only [Game.waits, Bool.and_eq_true, Bool.not_eq_true'] at waits
      exact waits.1
    rw [last] at inactive
    have left := Stage.overdue_startDue ready.tidy ready.inPlay inactive
    rw [← last] at left
    exact left

theorem startsLate_of_leftOver {g : Game} (some : g.leftOver ≠ []) :
    ∃ t due c, g.StartsLate t due c := by
  cases approach : g.approach? with
  | none => simp [leftOver, approach] at some
  | some t =>
    cases found : t.stage.due? with
    | none => simp [leftOver, approach, Stage.left, found] at some
    | some x =>
      obtain ⟨⟨due, c⟩, rest⟩ := x
      exact ⟨t, due, c, approach, rest, found⟩

/-! ## Whole games -/

theorem Runs.overdue_of_waits {director : Director} {entropy : Generator} {start : Date}
    {player : Player} {limit : Nat} {input : List (Option String)} {first : Move}
    {before after : List (Game × Move)} {x y : Game × Move} {g : Game}
    (awake : director.config.sandbox = false) (patient : director.Owns Graph.Patient)
    (begun : first = new director (director.interpreter entropy) (.new start player) limit input)
    (run : first.game.Runs (before ++ x :: y :: after) g) (waits : y.1.waits = true) :
    y.1.overdue = x.1.leftOver := by
  subst begun
  have underway := new_underway director entropy start player limit input awake
  obtain ⟨earlier, there, step, same, -, later⟩ := run.during underway
  have ready := earlier.ready patient (new_ready patient entropy start player limit input)
  have owns : x.1.director.Owns Graph.Patient := by
    rw [same]
    exact patient
  cases later with
  | cons next rest =>
    exact (step_cases there.coherent step).overdue_of_waits there owns ready waits

/-- If every delay lasts for some time, what is overdue when the clock moves on is what the last
look has left behind when it started a late event. So no late event is postponed past its day
exactly if no look before such a move leaves one behind. -/
theorem overdue_iff (director : Director) {entropy : Generator} {start : Date} {player : Player}
    {limit : Nat} {input : List (Option String)} {first : Move} {moves : List (Game × Move)}
    {g : Game} (awake : director.config.sandbox = false)
    (patient : director.Owns Graph.Patient)
    (begun : first = new director (director.interpreter entropy) (.new start player) limit input)
    (run : first.game.Runs moves g) :
    (∀ before x y after, moves = before ++ x :: y :: after → y.1.waits = true →
      y.1.overdue = x.1.leftOver ∧
        (y.1.overdue ≠ [] → ∃ t due c, x.1.StartsLate t due c)) ∧
    ((∀ y ∈ moves, y.1.waits = true → y.1.overdue = []) ↔
      ∀ before x y after, moves = before ++ x :: y :: after → y.1.waits = true →
        x.1.leftOver = []) := by
  have left (before : List (Game × Move)) (x y : Game × Move) (after : List (Game × Move))
      (split : moves = before ++ x :: y :: after) (waits : y.1.waits = true) :
      y.1.overdue = x.1.leftOver := by
    subst split
    exact run.overdue_of_waits awake patient begun waits
  refine ⟨?_, ?_, ?_⟩
  · intro before x y after split waits
    have same := left before x y after split waits
    refine ⟨same, ?_⟩
    rw [same]
    exact startsLate_of_leftOver
  · intro never before x y after split waits
    have mem : y ∈ moves := by
      rw [split]
      simp
    rw [← left before x y after split waits]
    exact never y mem waits
  · intro nothing y mem waits
    obtain ⟨earlier, after, rfl⟩ := List.append_of_mem mem
    rcases List.eq_nil_or_concat earlier with rfl | ⟨before, x, rfl⟩
    · -- Before the first move nothing has been scheduled.
      have same : y.1 = first.game := by
        cases run
        rfl
      rw [same, begun, new, Director.launch_awake awake]
      rfl
    · have split : before.concat x ++ y :: after = before ++ x :: y :: after := by simp
      rw [left before x y after split waits]
      exact nothing before x y after split waits

/-- A letter that is answered is followed by nothing that was overdue. -/
theorem overdue_iff_errand :
    let moves := (played 13 (errandGame .day 2 ["1"]).game).1
    (∃ y ∈ moves, y.1.waits = true) ∧ ∀ y ∈ moves, y.1.waits = true → y.1.overdue = [] := by
  intro moves
  have patient : ∀ g ∈ [errand .day], g.Patient := List.forall_mem_singleton.2 (by decide)
  obtain ⟨-, never⟩ := overdue_iff (errandGame .day 2 ["1"]).game.director rfl
    (Director.new_owns patient) rfl (runs_played 13 (errandGame .day 2 ["1"]).game)
  have nothing : ∀ x ∈ moves, x.1.leftOver.isEmpty = true := by decide +kernel
  refine ⟨by decide +kernel, never.2 ?_⟩
  intro before x y after split waits
  have mem : x ∈ moves := by
    rw [show moves = before ++ x :: y :: after from split]
    simp
  exact List.isEmpty_iff.1 (nothing x mem)

/-! ## Two on one day -/

/-- A salary that makes happy on the next day and sends a letter on that day, too. -/
def cheer : Graph where
  name := "salary"
  nodes := [⟨"start", .start "salary"⟩, ⟨"plan", .late [⟨.day, 1⟩, ⟨.day, 1⟩]⟩,
    ⟨"joy", .result [⟨.happiness, .add, 1⟩]⟩,
    ⟨"letter", .message none "A letter arrives" [] none⟩, ⟨"end", .final⟩]
  links := [⟨"start", "start", "plan"⟩, ⟨"plan", "infos 0", "joy"⟩,
    ⟨"plan", "infos 1", "letter"⟩, ⟨"plan", "output", "end"⟩, ⟨"joy", "output", "end"⟩,
    ⟨"letter", "output", "end"⟩]
  valid := Document.fault?_eq_none (by decide)

def cheerGame : Move :=
  let director := (Director.new { Config.default with seed := some 1 } [cheer]).1
  new director (director.interpreter (.ofSeed 1)) (.new lastOfJanuary .initial) 3 []

/-- The joy is over at once, and the clock moves on before the letter has come. -/
theorem letter_postponed :
    cheerGame.game.director.config.sandbox = false ∧
      cheerGame.game.director.Owns Graph.Patient ∧
      ∃ moves g, cheerGame.game.Runs moves g ∧
        ∃ y ∈ moves, y.1.waits = true ∧ y.1.overdue ≠ [] := by
  have patient : ∀ g ∈ [cheer], g.Patient := List.forall_mem_singleton.2 (by decide)
  refine ⟨rfl, Director.new_owns patient, _, _, runs_played 5 cheerGame.game, ?_⟩
  have late : ∃ y ∈ (played 5 cheerGame.game).1,
      y.1.waits = true ∧ y.1.overdue.isEmpty = false := by decide +kernel
  obtain ⟨y, mem, waits, overdue⟩ := late
  exact ⟨y, mem, waits, fun none => by simp [none] at overdue⟩

end Game

end Storyline
