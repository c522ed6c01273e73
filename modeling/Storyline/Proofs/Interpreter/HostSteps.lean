import Storyline.Proofs.Interpreter.HostCalls

/-!
# Steps of a host

The calls of an interpreter move the calendar only by time skips, whose length is found on the day on
which they are made.

* `Host.Follows`: a relation of hosts before and after that holds for each call of this kind.
* `Stage.serve_follows`: then it holds for requests.
* `Stage.pass_steady`: without a time skip, it holds if it does for all other calls.
-/

namespace Storyline

structure Host.Follows {H : Type} [Host H] (R : H → H → Prop) : Prop where
  refl (h : H) : R h h
  trans {h h' h'' : H} : R h h' → R h' h'' → R h h''
  call {c : Call} (h : H) : (∀ days, c ≠ .advance days) → R h (Host.perform c h)
  skip (unit : Period) (amount : UInt32) (h : H) :
    R h (Host.perform (.advance (Graph.skipDays unit amount (Host.today h))) h)

/-- The same for calls that leave the calendar alone. -/
structure Host.Steady {H : Type} [Host H] (R : H → H → Prop) : Prop where
  refl (h : H) : R h h
  trans {h h' h'' : H} : R h h' → R h' h'' → R h h''
  call {c : Call} (h : H) : (∀ days, c ≠ .advance days) → R h (Host.perform c h)

variable {H : Type} [Host H] {R : H → H → Prop}

theorem Host.Steady.performAll (steady : Host.Steady R) {calls : List Call}
    (still : ∀ days, .advance days ∉ calls) (h : H) : R h (Host.performAll h calls) := by
  apply Host.performAll_preserves (P := R h) _ (steady.refl h)
  intro c mem h' before
  apply steady.trans before
  apply steady.call
  rintro days rfl
  exact still days mem

namespace Host.Follows

theorem steady (follows : Host.Follows R) : Host.Steady R :=
  ⟨follows.refl, follows.trans, follows.call⟩

theorem visit (follows : Host.Follows R) (v : Visit) (h : H) (today : v.today = Host.today h) :
    R h (Host.performAll h v.calls) := by
  obtain ⟨⟨id, kind⟩, category, _⟩ := v
  subst today
  cases kind with
  | timeSkip unit amount => exact follows.skip unit amount h
  | _ => exact follows.steady.performAll (by simp [Visit.calls]) h

end Host.Follows

namespace Stage

/-- The end of a session leaves the calendar alone. -/
theorem advance_notMem_finish (s : Stage H) (days : Int) :
    .advance days ∉ s.finish.events.filterMap Event.call? := by
  intro mem
  cases playing : s.interpreter.session with
  | none =>
    rw [finish_idle playing] at mem
    contradiction
  | some session =>
    rw [← calls_heard, finish_heard playing, mem_calls] at mem
    simp [sessionEnding] at mem

theorem finish_steady (steady : Host.Steady R) (s : Stage H) : R s.host s.finish.stage.host := by
  rw [s.faithful_finish]
  exact steady.performAll s.advance_notMem_finish s.host

theorem follow_steady (steady : Host.Steady R) (step : Step) (s : Stage H) :
    R s.host (s.follow step).stage.host := by
  cases step with
  | finish => exact finish_steady steady s
  | _ => exact steady.refl _

/-- Nothing but a time skip moves the calendar. -/
theorem pass_steady (steady : Host.Steady R) {s : Stage H} (other : ∀ v, s.visit? = some v →
    ∀ unit amount, v.node.kind ≠ .timeSkip unit amount) : R s.host s.pass.stage.host := by
  cases s.pass_passes with
  | rests _ _ turn =>
    rw [turn]
    exact steady.refl _
  | ends _ _ _ stage =>
    rw [stage]
    exact finish_steady steady s
  | @visits session v playing current visit turn =>
    have quiet := session.graph.sent_notMem_effects v s.interpreter.generator
    have applied : R s.host (s.apply session (session.graph.effects v.node v.category v.today
        s.interpreter.generator)).stage.host := by
      rw [apply_stage s session quiet]
      apply steady.performAll
      intro days mem
      rw [← calls_heard, Graph.effects_heard, call_calls] at mem
      obtain ⟨unit, amount, kind⟩ := v.timeSkip_of_advance mem
      exact other v visit unit amount kind
    rw [turn]
    exact steady.trans applied (follow_steady steady _ _)

theorem apply_follows (follows : Host.Follows R) (s : Stage H) (session : Session) (node : Node) :
    let e := session.graph.effects node session.category (Host.today s.host)
      s.interpreter.generator
    R s.host (s.apply session e).stage.host := by
  intro e
  let v : Visit := ⟨node, session.category, Host.today s.host⟩
  have calls : e.events.filterMap Event.call? = v.calls := by
    rw [← calls_heard, session.graph.effects_heard v s.interpreter.generator, call_calls]
  rw [s.apply_stage session (session.graph.sent_notMem_effects v s.interpreter.generator), calls]
  exact follows.visit v s.host rfl

theorem pass_follows (follows : Host.Follows R) (s : Stage H) : R s.host s.pass.stage.host := by
  unfold pass
  split
  · split
    · exact finish_steady follows.steady s
    · split
      · exact finish_steady follows.steady s
      · exact follows.trans (apply_follows follows s _ _) (follow_steady follows.steady _ _)
  · exact follows.refl _

theorem walk_follows (follows : Host.Follows R) (n : Nat) (s : Stage H) :
    R s.host (s.walk n).stage.host := by
  induction n generalizing s with
  | zero => exact follows.refl _
  | succ n ih =>
    rw [walk_succ]
    exact follows.trans (pass_follows follows s) (ih _)

theorem begin_follows (follows : Host.Follows R) (s : Stage H) (session : Session) :
    R s.host (s.begin session).stage.host := by
  have opened : R s.host (s.opening session).stage.host := follows.call s.host (by simp)
  rw [begin_eq]
  exact follows.trans opened (walk_follows follows _ _)

theorem entrance?_follows (follows : Host.Follows R) {s t : Stage H} {r : Request H}
    (h : s.entrance? r = some t) : R s.host t.host := by
  rcases entrance?_eq_some h with ⟨-, g, id, category, -, rfl⟩ | ⟨elapsed, -, settled⟩
  · exact follows.call s.host (by simp)
  · rcases settled?_eq_some settled with rfl | ⟨session, -, rfl⟩
    · exact follows.refl _
    · exact follows.refl _

theorem serve_follows (follows : Host.Follows R) (s : Stage H) {r : Request H}
    (own : ∀ f, r ≠ .change f) : R s.host (s.serve r).stage.host := by
  cases r with
  | start g =>
    rw [serve]
    unfold start
    split
    · exact follows.refl _
    · split
      · exact follows.refl _
      · exact begin_follows follows s _
  | startAt c =>
    rw [serve]
    unfold startAt
    split
    · exact follows.refl _
    · split
      · exact follows.refl _
      · exact begin_follows follows s _
  | tick elapsed =>
    rw [serve]
    unfold tick
    split
    · split
      · exact walk_follows follows _ s
      · split
        · exact walk_follows follows _ s
        · dsimp only
          split
          · exact follows.refl _
          · exact walk_follows follows _ (s.modify _)
    · exact follows.refl _
  | choose choice =>
    rw [serve]
    unfold choose
    split
    · split
      · exact follows.refl _
      · exact follows.call s.host (by simp)
    · exact follows.refl _
  | skipEnded =>
    rw [serve]
    unfold skipEnded
    split <;> exact follows.refl _
  | finish => exact finish_steady follows.steady s
  | change f => exact absurd rfl (own f)
  | _ => exact follows.refl _

end Stage

end Storyline
