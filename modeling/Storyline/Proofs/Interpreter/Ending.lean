import Storyline.Proofs.Interpreter.HostCalls

/-!
# The end of a game

A session that ends after the end of the game was requested ends the game, and that is the last
thing heard of it but for the reset of the calendar.

* `Stage.serve_ends`: how a request stands to the end of the game.
* `Stage.serve_resolved`: what waits can be started.
-/

namespace Storyline

theorem gameOver_notMem_calls (legs : List Leg) : .gameOver ∉ legs.flatMap Leg.calls := by
  intro mem
  obtain ⟨leg, -, mem⟩ := List.mem_flatMap.1 mem
  cases leg with
  | visit v => exact absurd (v.isEffect_calls _ mem) (by simp [Call.isEffect])
  | answer choice => simp [Leg.calls] at mem
  | arrival => simp [Leg.calls] at mem

/-- All continuations go on at a node of their graphs. -/
def Agenda.Resolved (a : Agenda) : Prop :=
  ∀ entry ∈ a.toList, ∃ node, entry.2.graph.node? entry.2.node = some node

theorem Agenda.Gains.resolved {a b : Agenda} {g : Graph} {legs : List Leg}
    (gains : a.Gains g legs b) (h : a.Resolved) : b.Resolved := by
  intro entry mem
  rcases gains entry mem with old | ⟨graph, found, -⟩
  · exact h entry old
  · rwa [graph]

/-- The turn ends the game, and nothing is heard after that but the reset of the calendar. -/
structure Turn.Over {H : Type} (t : Turn H) : Prop where
  events : ∃ before, heard t.events = before ++ [.call .gameOver, .call .reset] ∧
    .call .gameOver ∉ before
  idle : t.stage.interpreter.Idle
  flag : t.stage.interpreter.endRequested = false

theorem Turn.Over.after {H : Type} {t : Turn H} (h : t.Over) {es : List Event}
    (silent : .call .gameOver ∉ heard es) : Turn.Over ⟨t.stage, es ++ t.events⟩ := by
  obtain ⟨before, events, first⟩ := h.events
  refine ⟨⟨heard es ++ before, ?_, ?_⟩, h.idle, h.flag⟩
  · rw [heard_append, events, List.append_assoc]
  · simp [silent, first]

namespace Stage

variable {H : Type}

/-- A request to the interpreter itself other than for an end. -/
def Request.Plain : Request H → Prop
  | .start _ | .startAt _ | .tick _ | .choose _ | .skipEnded => True
  | _ => False

namespace Request.Plain

variable {r : Request H}

theorem inert (plain : r.Plain) : r.asksEnd = false := by
  cases r <;> trivial

theorem rearrange (plain : r.Plain) (a : Agenda) : r.rearrange a = a := by
  cases r <;> trivial

theorem own (plain : r.Plain) (f : H → H) : r ≠ .change f := by
  rintro rfl
  exact plain

end Request.Plain

variable [Host H]

inductive Ends (s : Stage H) (t : Turn H) : Prop where
  | calm (silent : .call .gameOver ∉ heard t.events)
      (flag : s.interpreter.endRequested = false → t.stage.interpreter.endRequested = false)
  | closed (asked : s.interpreter.endRequested = true) (ended : t.Over)

omit [Host H] in
theorem ends_still (s : Stage H) : s.Ends (.still s) :=
  .calm (by simp) (fun flag => flag)

omit [Host H] in
theorem Ends.over_of_mem {s : Stage H} {t : Turn H} (h : s.Ends t)
    (mem : .call .gameOver ∈ heard t.events) : s.interpreter.endRequested = true ∧ t.Over := by
  cases h with
  | calm silent flag => exact absurd mem silent
  | closed asked ended => exact ⟨asked, ended⟩

omit [Host H] in
theorem Ends.unasked {s : Stage H} {t : Turn H} (h : s.Ends t)
    (unasked : s.interpreter.endRequested = false) :
    .call .gameOver ∉ heard t.events ∧ t.stage.interpreter.endRequested = false := by
  cases h with
  | calm silent flag => exact ⟨silent, flag unasked⟩
  | closed asked ended =>
    rw [unasked] at asked
    contradiction

omit [Host H] in
theorem ends_ending {s : Stage H} {t : Turn H} {quiet : List Event} {category : Category}
    (silent : .call .gameOver ∉ quiet)
    (events : heard t.events = quiet ++
      sessionEnding s.interpreter.settings.sandbox s.interpreter.endRequested category)
    (idle : t.stage.interpreter.Idle) (flag : t.stage.interpreter.endRequested = false) :
    s.Ends t := by
  cases asked : s.interpreter.endRequested with
  | false =>
    refine .calm ?_ (fun _ => flag)
    rw [events, asked]
    simp [sessionEnding, silent]
  | true =>
    have events : heard t.events =
        (quiet ++ sessionEnding s.interpreter.settings.sandbox false category) ++
          [.call .gameOver, .call .reset] := by
      rw [events, asked]
      simp [sessionEnding]
    refine .closed asked ⟨⟨_, events, ?_⟩, idle, flag⟩
    simp [sessionEnding, silent]

omit [Host H] in
theorem Proceeds.ends {s : Stage H} {g : Graph} {p : Place} {legs : List Leg} {t u : Turn H}
    (h : s.Proceeds g p legs u) {quiet : List Event} (silent : .call .gameOver ∉ quiet)
    (stage : t.stage = u.stage) (events : heard t.events = quiet ++ heard u.events) :
    s.Ends t := by
  have calls : .call .gameOver ∉ (legs.flatMap Leg.calls).map Event.call := by
    simpa using gameOver_notMem_calls legs
  cases h with
  | ongoing walk plays settings flag agenda happened =>
    refine .calm ?_ ?_
    · rw [events, happened]
      simp only [List.mem_append, not_or]
      exact ⟨silent, calls⟩
    · rw [stage, flag]
      exact fun unasked => unasked
  | ended walk last idle settings flag agenda happened =>
    rw [happened, ← List.append_assoc] at events
    apply ends_ending _ events (by rwa [stage]) (by rwa [stage])
    simp only [List.mem_append, not_or]
    exact ⟨silent, calls⟩

theorem serve_ends {s : Stage H} (coherent : s.interpreter.Coherent) {r : Request H}
    (inert : r.asksEnd = false) : s.Ends (s.serve r) := by
  have nothing : .call .gameOver ∉ ([] : List Event) := by simp
  cases serves coherent r with
  | rests idle closed after settings flag agenda legs silent =>
    refine .calm (by simp [silent]) ?_
    simp [flag, inert]
  | begins idle opens proceeds stage events =>
    exact proceeds.ends (by simp [sessionOpening]) stage events
  | stands plays after settings flag agenda legs silent =>
    refine .calm (by simp [silent]) ?_
    simp [flag, inert]
  | proceeds plays inert proceeds =>
    exact proceeds.ends nothing rfl rfl
  | finishes plays request after settings flag agenda legs events =>
    exact ends_ending nothing events after flag

theorem serve_resolved {s : Stage H} (coherent : s.interpreter.Coherent) {r : Request H}
    (same : r.rearrange s.interpreter.agenda = s.interpreter.agenda)
    (resolved : s.interpreter.agenda.Resolved) :
    (s.serve r).stage.interpreter.agenda.Resolved := by
  have proceeding {g : Graph} {p : Place} {legs : List Leg} {t : Turn H}
      (h : s.Proceeds g p legs t) : t.stage.interpreter.agenda.Resolved := by
    cases h with
    | ongoing walk plays settings flag gains => exact gains.resolved resolved
    | ended walk last idle settings flag gains => exact gains.resolved resolved
  cases serves coherent r with
  | rests idle closed after settings flag agenda => rwa [agenda, same]
  | begins idle opens proceeds stage =>
    rw [stage]
    exact proceeding proceeds
  | stands plays after settings flag agenda => rwa [agenda, same]
  | proceeds plays inert proceeds => exact proceeding proceeds
  | finishes plays request after settings flag agenda => rwa [agenda]

end Stage

end Storyline
