import Storyline.Proofs.Interpreter.Request

/-!
# What an interpreter says

Beside the beginnings of sessions an interpreter tells of nodes, of the ends of sessions and of
requests that it passes over. So nothing of what a director says, and no flaw of a graph, is among
the events of a request.

* `Stage.walk_played`: the events of a walk.
* `Stage.serve_played`: the events of a request.
-/

namespace Storyline

/-- Whether an event can come from a node, from the end of a session, or from a request that is
passed over. -/
def Event.isPlayed : Event → Bool
  | .notice (.weightsZero ..) | .notice (.promptSkipped _) | .notice (.skipOverflow ..)
  | .notice (.advancing ..) | .notice (.delayUnconnected ..) | .notice (.delayOverflow ..)
  | .notice (.scenarioFinished ..) | .notice .gameOver | .notice (.choiceUnexpected _)
  | .notice (.choiceUnknown ..) | .notice (.lateNodeMissing ..) => true
  | .notice _ => false
  | .sent (.finished _) => true
  | .sent (.started _) => false
  | .call .startClock | .call .deductDaily | .call .creditMonthly | .call (.pause true) => false
  | .call _ => true

def Played (events : List Event) : Prop :=
  ∀ e ∈ events, e.isPlayed = true

theorem Played.append {es fs : List Event} (h₁ : Played es) (h₂ : Played fs) :
    Played (es ++ fs) := by
  intro e mem
  rcases List.mem_append.1 mem with mem | mem
  · exact h₁ e mem
  · exact h₂ e mem

/-- No played event is of a kind that sessions do not have. -/
theorem Played.filter_eq_nil {es : List Event} (h : Played es) {p : Event → Bool}
    (foreign : ∀ e, e.isPlayed = true → p e = false) : es.filter p = [] := by
  apply List.filter_eq_nil_iff.2
  intro e mem
  simp [foreign e (h e mem)]

namespace Graph

theorem delayed_played {g : Graph} {id : NodeId} {category : Category} {today : Date}
    {delay : Delay} {i : Nat} {notice : Notice}
    (h : g.delayed id category today delay i = .error notice) :
    (Event.notice notice).isPlayed = true := by
  unfold delayed at h
  split at h
  · obtain rfl := Except.error.inj h
    rfl
  · split at h
    · obtain rfl := Except.error.inj h
      rfl
    · contradiction

theorem effects_played (g : Graph) (node : Node) (category : Category) (today : Date)
    (gen : Generator) : Played (g.effects node category today gen).events := by
  unfold effects
  cases node.kind with
  | timeSkip unit amount =>
    cases date : unit.after? amount today <;>
      simp [skipEvents, date, Played, Event.isPlayed]
  | weightedRandom outcomes =>
    unfold pickWeighted
    dsimp only
    split
    · simp [Played]
    · split <;> simp [Played, Event.isPlayed]
  | late ds =>
    intro e mem
    obtain ⟨outcome, among, told⟩ := List.mem_filterMap.1 mem
    cases outcome with
    | ok entry => simp at told
    | error notice =>
      obtain ⟨⟨delay, i⟩, -, failed⟩ := List.mem_map.1 among
      obtain rfl := Option.some.inj told
      exact delayed_played failed
  | _ => simp [Played, Event.isPlayed]

end Graph

namespace Stage

variable {H : Type} [Host H]

theorem finish_played (s : Stage H) : Played s.finish.events := by
  unfold finish
  split
  · simp [Played]
  · have last (s : Stage H) : Played s.endGame.events := by
      unfold endGame
      split <;> simp [Played, tell, call, Event.isPlayed]
    refine .append (.append (.append (.append ?_ ?_) ?_) ?_) (last _)
    · simp [Played, send, Event.isPlayed]
    · simp [Played, call, Event.isPlayed]
    · dsimp only
      split <;> simp [Played, call, Event.isPlayed]
    · simp [Played, tell, Event.isPlayed]

theorem follow_played (step : Step) (s : Stage H) : Played (s.follow step).events := by
  cases step with
  | finish => exact s.finish_played
  | _ => simp [Played, follow]

theorem pass_played {s : Stage H} {g : Graph} {p : Place} (plays : s.interpreter.Plays g p) :
    Played s.pass.events := by
  cases plays with
  | paused phase session awaits =>
    rw [pass_of_resting (by simp [phase])]
    simp [Played]
  | @running category next settle phase session holds =>
    cases next with
    | none =>
      rw [pass_runOut phase session rfl]
      exact s.finish_played
    | some id =>
      obtain ⟨node, found⟩ := holds id rfl
      obtain rfl := g.node?_id found
      rw [pass_visit phase session rfl found, Turn.events_andThen, apply_events]
      exact .append (g.effects_played _ _ _ _) (follow_played _ _)

theorem walk_played {s : Stage H} (coherent : s.interpreter.Coherent)
    (settled : s.interpreter.Settled) (n : Nat) :
    Played (s.walk n).events ∧ (s.walk n).stage.interpreter.Coherent := by
  induction n generalizing s with
  | zero => exact ⟨by simp [Played, walk], coherent⟩
  | succ n ih =>
    rcases coherent with idle | ⟨g, p, plays⟩
    · rw [walk_of_idle idle.2]
      exact ⟨by simp [Played], .inl idle⟩
    · obtain ⟨proceeds, settled'⟩ := pass_proceeds plays settled
      obtain ⟨played, coherent⟩ := ih proceeds.coherent settled'
      rw [walk_succ]
      exact ⟨.append (pass_played plays) played, coherent⟩

/-! ## Requests -/

theorem entrance?_coherent {s t : Stage H} (coherent : s.interpreter.Coherent) {r : Request H}
    (h : s.entrance? r = some t) : t.interpreter.Coherent ∧ t.interpreter.Settled := by
  rcases entrance?_eq_some h with ⟨-, g, id, category, opens, rfl⟩ | ⟨elapsed, rfl, due⟩
  · exact ⟨.inr ⟨_, _, opening_plays opens⟩, opening_settled _ _ _ _⟩
  · rcases coherent with idle | ⟨g, p, plays⟩
    · simp [settled?, idle.1] at due
    · obtain ⟨plays, settled, -⟩ := settled?_plays plays due
      exact ⟨.inr ⟨g, p, plays⟩, settled⟩

/-- What comes before the walk when a request enters it. -/
def Request.prologue : Request H → List Event
  | .start g => g.start?.elim [] fun node =>
      .notice (.scenarioStarted g.name (node.kind.recategorize defaultCategory)) ::
        sessionOpening (node.kind.recategorize defaultCategory)
  | .startAt c => .notice (.lateStarted c.graph.name c.node) :: sessionOpening c.category
  | _ => []

/-- A request that enters the walk does what happens there, after what has opened the session. -/
theorem serve_of_entrance {s t : Stage H} {r : Request H} (h : s.entrance? r = some t) :
    (s.serve r).stage = t.proceed.stage ∧ (s.serve r).events = r.prologue ++ t.proceed.events := by
  cases r with
  | start g =>
    obtain ⟨id, category, first⟩ := g.exists_start
    rw [entrance?_start s first] at h
    split at h
    · contradiction
    · rename_i inactive
      obtain rfl := Option.some.inj h
      rw [serve, start_eq s first, if_neg inactive]
      refine ⟨rfl, ?_⟩
      simp only [Request.prologue, first]
      rfl
  | startAt c =>
    simp only [entrance?] at h
    split at h
    · contradiction
    · rename_i inactive
      obtain ⟨node, found, rfl⟩ := Option.map_eq_some_iff.1 h
      simp only [serve, startAt, inactive, found]
      exact ⟨rfl, rfl⟩
  | tick elapsed =>
    rw [serve, tick_eq_proceed h]
    exact ⟨rfl, rfl⟩
  | _ => simp [entrance?] at h

theorem serve_played_of_closed {s : Stage H} {r : Request H} (h : s.entrance? r = none) :
    Played (s.serve r).events := by
  cases r with
  | start g =>
    obtain ⟨id, category, first⟩ := g.exists_start
    rw [entrance?_start s first] at h
    split at h
    · rename_i active
      rw [serve, start_eq s first, if_pos active]
      simp [Played]
    · contradiction
  | startAt c =>
    cases found : c.graph.node? c.node <;> cases active : s.interpreter.isActive <;>
      simp_all [entrance?, serve, startAt, Played, tell, Event.isPlayed]
  | tick elapsed =>
    rw [serve, tick_silent h]
    simp [Played]
  | choose choice =>
    rw [serve]
    unfold choose
    split
    · split
      · simp [Played, tell, Event.isPlayed]
      · simp [Played, call, Event.isPlayed]
    · simp [Played, tell, Event.isPlayed]
  | skipEnded =>
    rw [serve]
    unfold skipEnded
    split <;> simp [Played]
  | finish => exact s.finish_played
  | _ => simp [Played, serve]

/-- The events of a request: the beginning of a session, if it begins one, and then such as come
from nodes, from the end of a session or from a request that is passed over. -/
theorem serve_played {s : Stage H} (coherent : s.interpreter.Coherent) (r : Request H) :
    ∃ rest, Played rest ∧ (s.serve r).events =
      (if (s.entrance? r).isSome then r.prologue else []) ++ rest := by
  cases entrance : s.entrance? r with
  | some t =>
    obtain ⟨coherent', settled⟩ := entrance?_coherent coherent entrance
    exact ⟨_, (walk_played coherent' settled _).1, (serve_of_entrance entrance).2⟩
  | none => exact ⟨_, serve_played_of_closed entrance, rfl⟩

theorem tick_played {s : Stage H} (coherent : s.interpreter.Coherent) (elapsed : Nat) :
    Played (s.tick elapsed).events := by
  obtain ⟨rest, played, events⟩ := serve_played coherent (.tick elapsed)
  have events : (s.tick elapsed).events = rest := by simpa [Request.prologue, serve] using events
  rw [events]
  exact played

end Stage

end Storyline
