import Storyline.Proofs.Interpreter.Request

/-!
# What a host goes through

An interpreter changes its host by calls alone, and every call is an event.

* `Stage.serve_faithful`: the host after a request is the host after the calls among its events.
-/

namespace Storyline

theorem Host.performAll_append {H : Type} [Host H] (h : H) (first second : List Call) :
    performAll h (first ++ second) = performAll (performAll h first) second :=
  List.foldl_append

theorem Host.performAll_preserves {H : Type} [Host H] {P : H → Prop} {calls : List Call}
    (each : ∀ c ∈ calls, ∀ h, P h → P (perform c h)) {h : H} (first : P h) :
    P (performAll h calls) := by
  induction calls generalizing h with
  | nil => exact first
  | cons c calls ih =>
    obtain ⟨now, later⟩ := List.forall_mem_cons.1 each
    exact ih later (now h first)

namespace Stage

variable {H : Type} [Host H]

/-- The host after a turn is the host after the calls of the turn. -/
def Faithful (s : Stage H) (t : Turn H) : Prop :=
  t.stage.host = Host.performAll s.host (t.events.filterMap Event.call?)

theorem Faithful.of_heard {s : Stage H} {t : Turn H} (h : s.Faithful t) :
    t.stage.host = Host.performAll s.host ((heard t.events).filterMap Event.call?) := by
  rw [calls_heard]
  exact h

theorem faithful_still (s : Stage H) : s.Faithful (.still s) := rfl

theorem faithful_tell (s : Stage H) (n : Notice) : s.Faithful (s.tell n) := rfl

theorem faithful_send (s : Stage H) (n : Notification) : s.Faithful (s.send n) := rfl

theorem faithful_call (s : Stage H) (c : Call) : s.Faithful (s.call c) := rfl

/-- A turn of which only the interpreter was changed before. -/
theorem Faithful.of_modify {s : Stage H} {f : Interpreter → Interpreter} {t : Turn H}
    (h : (s.modify f).Faithful t) : s.Faithful t :=
  h

theorem Faithful.andThen {s : Stage H} {t : Turn H} {f : Stage H → Turn H} (h : s.Faithful t)
    (next : t.stage.Faithful (f t.stage)) : s.Faithful (t.andThen f) := by
  unfold Faithful at *
  rw [Turn.stage_andThen, next, h, Turn.events_andThen, List.filterMap_append,
    Host.performAll_append]

theorem faithful_playEvents (s : Stage H) (es : List Event) : s.Faithful (s.playEvents es) := by
  induction es generalizing s with
  | nil => exact s.faithful_still
  | cons e es ih =>
    cases e with
    | call c => exact (s.faithful_call c).andThen (ih _)
    | notice n => exact (s.faithful_tell n).andThen (ih _)
    | sent n => exact (s.faithful_send n).andThen (ih _)

theorem faithful_endGame (s : Stage H) : s.Faithful s.endGame := by
  unfold endGame
  split
  · have told := faithful_tell (s.modify fun i => { i with endRequested := false }) .gameOver
    exact (told.andThen (faithful_call _ _)).andThen (faithful_call _ _)
  · exact s.faithful_still

theorem faithful_finish (s : Stage H) : s.Faithful s.finish := by
  unfold finish
  split
  · exact s.faithful_still
  · refine .andThen (.andThen (.andThen (.andThen ?_ ?_) ?_) ?_) ?_
    · exact faithful_send (s.modify _) _
    · exact faithful_call _ _
    · split
      · exact faithful_still _
      · exact faithful_call _ _
    · exact faithful_tell _ _
    · exact faithful_endGame _

theorem faithful_follow (step : Step) (s : Stage H) : s.Faithful (s.follow step) := by
  cases step with
  | advance next => rfl
  | suspend suspension => rfl
  | finish => exact s.faithful_finish

theorem faithful_pass (s : Stage H) : s.Faithful s.pass := by
  unfold pass
  split
  · split
    · exact s.faithful_finish
    · split
      · exact (s.faithful_tell _).andThen (faithful_finish _)
      · exact .andThen (faithful_playEvents (s.modify _) _) (faithful_follow _ _)
  · exact s.faithful_still

theorem faithful_walk (n : Nat) (s : Stage H) : s.Faithful (s.walk n) := by
  induction n generalizing s with
  | zero => exact s.faithful_still
  | succ n ih =>
    rw [walk_succ]
    exact s.faithful_pass.andThen (ih _)

theorem faithful_begin (s : Stage H) (session : Session) : s.Faithful (s.begin session) :=
  .andThen (.andThen (faithful_send (s.modify _) _) (faithful_call _ _)) (faithful_walk _ _)

theorem faithful_start (s : Stage H) (g : Graph) : s.Faithful (s.start g).2 := by
  unfold start
  split
  · exact s.faithful_still
  · split
    · exact s.faithful_tell _
    · exact (s.faithful_tell _).andThen (faithful_begin _ _)

theorem faithful_startAt (s : Stage H) (c : Continuation) : s.Faithful (s.startAt c).2 := by
  unfold startAt
  split
  · exact s.faithful_still
  · split
    · exact s.faithful_tell _
    · exact (s.faithful_tell _).andThen (faithful_begin _ _)

theorem faithful_tick (s : Stage H) (elapsed : Nat) : s.Faithful (s.tick elapsed) := by
  unfold tick
  split
  · split
    · exact faithful_walk _ s
    · split
      · exact faithful_walk _ s
      · dsimp only
        split
        · rfl
        · exact faithful_walk _ (s.modify _)
  · exact s.faithful_still

theorem faithful_choose (s : Stage H) (choice : Nat) : s.Faithful (s.choose choice) := by
  unfold choose
  split
  · split
    · exact s.faithful_tell _
    · exact (s.faithful_call _).andThen rfl
  · exact s.faithful_tell _

theorem faithful_skipEnded (s : Stage H) : s.Faithful s.skipEnded := by
  unfold skipEnded
  split
  · rfl
  · exact s.faithful_still

theorem serve_faithful {s : Stage H} {r : Request H} (own : ∀ f, r ≠ .change f) :
    s.Faithful (s.serve r) := by
  cases r with
  | start g => exact s.faithful_start g
  | startAt c => exact s.faithful_startAt c
  | tick elapsed => exact s.faithful_tick elapsed
  | choose choice => exact s.faithful_choose choice
  | skipEnded => exact s.faithful_skipEnded
  | finish => exact s.faithful_finish
  | change f => exact absurd rfl (own f)
  | _ => rfl

end Stage

end Storyline
