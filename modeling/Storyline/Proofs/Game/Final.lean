import Storyline.Proofs.Player

/-!
# The end of a game is final

* `Player.Final`: nothing of importance happens after the end of the game.
* `Player.final_append`, `Player.final_split`: what of a list of events decides it.
-/

namespace Storyline

namespace Player

/-- No session starts and nothing changes the player. -/
def Harmless (p : Player) (es : List Event) : Prop :=
  (∀ category, .sent (.started category) ∉ es) ∧ p.Untouched es

/-- Once the game is over nothing of importance happens any more. -/
def Final (p : Player) (es : List Event) : Prop :=
  ∀ before after, es = before ++ .call .gameOver :: after → (p.after before).Harmless after

theorem untouched_heard {p : Player} {es : List Event} :
    p.Untouched (heard es) ↔ p.Untouched es := by
  induction es with
  | nil => rfl
  | cons e es ih =>
    cases e with
    | notice n =>
      rw [heard_notice, untouched_cons, ih]
      exact ⟨fun rest => ⟨rfl, rest⟩, fun h => h.2⟩
    | sent n => rw [heard_sent, untouched_cons, untouched_cons, ih]
    | call c => rw [heard_call, untouched_cons, untouched_cons, ih]

theorem harmless_heard {p : Player} {es : List Event} :
    p.Harmless (heard es) ↔ p.Harmless es := by
  unfold Harmless
  rw [untouched_heard]
  simp [heard, Event.isHeard]

theorem final_heard {p : Player} {es : List Event} : p.Final (heard es) ↔ p.Final es := by
  constructor
  · intro final before after split
    have rest := final (heard before) (heard after) (by simp [split])
    rwa [after_heard, harmless_heard] at rest
  · intro final before after split
    obtain ⟨first, second, rfl, rfl, tail⟩ := List.filter_eq_append_iff.1 split
    obtain ⟨silent, last, rfl, none, -, rfl⟩ := List.filter_eq_cons_iff.1 tail
    have rest := final (first ++ silent) last (by simp)
    have same : heard silent = [] := List.filter_eq_nil_iff.2 none
    rw [← harmless_heard, ← after_heard, heard_append, same, List.append_nil] at rest
    exact rest

theorem Harmless.initial {p : Player} {es fs : List Event} (h : p.Harmless (es ++ fs)) :
    p.Harmless es :=
  ⟨fun category mem => h.1 category (List.mem_append_left _ mem), h.2.initial⟩

theorem harmless_reset (p : Player) : p.Harmless [.call .reset] :=
  ⟨by simp, untouched_cons.2 ⟨rfl, p.untouched_nil⟩⟩

/-- A list before which the game is not over adds nothing. -/
theorem final_append {p : Player} {es fs : List Event} (silent : .call .gameOver ∉ es) :
    p.Final (es ++ fs) ↔ (p.after es).Final fs := by
  constructor
  · intro final before after split
    have rest := final (es ++ before) after (by rw [split, List.append_assoc])
    rwa [Player.after_append] at rest
  · intro final before after split
    rcases List.append_eq_append_iff.1 split with ⟨mid, rfl, rfl⟩ | ⟨mid, rfl, rest⟩
    · rw [Player.after_append]
      exact final mid after rfl
    · cases mid with
      | nil =>
        simp only [List.append_nil] at final
        simpa using final [] after (by simpa using rest.symm)
      | cons e mid =>
        obtain ⟨rfl, -⟩ := List.cons.inj rest
        simp at silent

/-- A list in which the game is over once is final if all that follows is harmless. -/
theorem final_split {p : Player} {before after : List Event} (first : .call .gameOver ∉ before)
    (last : .call .gameOver ∉ after) :
    p.Final (before ++ .call .gameOver :: after) ↔ (p.after before).Harmless after := by
  constructor
  · intro final
    exact final before after rfl
  · intro harmless
    rw [final_append first]
    intro before' after' split
    cases before' with
    | nil =>
      obtain ⟨-, rfl⟩ := List.cons.inj split
      exact harmless
    | cons e before' =>
      obtain ⟨rfl, rfl⟩ := List.cons.inj split
      simp at last

end Player

end Storyline
