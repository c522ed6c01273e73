import Storyline.Console
import Storyline.Proofs.Interpreter.HostCalls

/-!
# Players under calls

A console changes its player, and ends the game, by the calls that it gets and in no other way.

* `Console.performAll_player`, `Console.performAll_gameOver`: player and game after some calls.
* `Player.Untouched`: no event of a list changes the player.
-/

namespace Storyline

namespace Player

def perform (call : Call) (p : Player) : Player :=
  match call with
  | .edit edits => edits.foldl Player.edit p
  | .trade action item => p.trade action item
  | .deductDaily => p.deductDaily
  | .creditMonthly => p.creditMonthly
  | _ => p

def meet (p : Player) : Event → Player
  | .call c => p.perform c
  | _ => p

def after (p : Player) (es : List Event) : Player :=
  es.foldl meet p

@[simp] theorem after_nil (p : Player) : p.after [] = p := rfl

@[simp] theorem after_cons (p : Player) (e : Event) (es : List Event) :
    p.after (e :: es) = (p.meet e).after es := rfl

theorem after_append (p : Player) (es fs : List Event) :
    p.after (es ++ fs) = (p.after es).after fs :=
  List.foldl_append

theorem after_eq_foldl (p : Player) (es : List Event) :
    p.after es = (es.filterMap Event.call?).foldl (fun p c => p.perform c) p := by
  induction es generalizing p with
  | nil => rfl
  | cons e es ih =>
    rw [after_cons, ih]
    cases e <;> rfl

theorem after_heard (p : Player) (es : List Event) : p.after (heard es) = p.after es := by
  rw [after_eq_foldl, calls_heard, ← after_eq_foldl]

/-- No event changes the player, not even for a while. -/
def Untouched (p : Player) (es : List Event) : Prop :=
  ∀ first, first <+: es → p.after first = p

theorem untouched_nil (p : Player) : p.Untouched [] := by
  intro first h
  rw [List.prefix_nil.1 h]
  rfl

theorem untouched_cons {p : Player} {e : Event} {es : List Event} :
    p.Untouched (e :: es) ↔ p.meet e = p ∧ p.Untouched es := by
  constructor
  · intro h
    have same : p.meet e = p := h [e] ⟨es, rfl⟩
    refine ⟨same, ?_⟩
    intro first h'
    have longer := h (e :: first) (List.cons_prefix_cons.2 ⟨rfl, h'⟩)
    rwa [after_cons, same] at longer
  · rintro ⟨same, rest⟩ first h
    rcases List.prefix_cons_iff.1 h with rfl | ⟨first, rfl, h'⟩
    · rfl
    · rw [after_cons, same]
      exact rest first h'

theorem Untouched.initial {p : Player} {es fs : List Event} (h : p.Untouched (es ++ fs)) :
    p.Untouched es :=
  fun first h' => h first (h'.trans (List.prefix_append es fs))

end Player

namespace Console

theorem perform_player (c : Console) (call : Call) :
    (Console.perform call c).player = c.player.perform call := by
  cases call with
  | advance days =>
    simp only [Console.perform, advance]
    split <;> rfl
  | _ => rfl

theorem performAll_player (c : Console) (calls : List Call) :
    (Host.performAll c calls).player = calls.foldl (fun p c => p.perform c) c.player := by
  induction calls generalizing c with
  | nil => rfl
  | cons call calls ih =>
    simp only [Host.performAll, List.foldl_cons] at ih ⊢
    have first : (Host.perform call c).player = c.player.perform call := c.perform_player call
    rw [ih, first]

theorem perform_gameOver (c : Console) (call : Call) :
    (Console.perform call c).gameOver = (c.gameOver || decide (.gameOver = call)) := by
  cases call with
  | advance days =>
    simp only [Console.perform, advance]
    split <;> simp [print]
  | _ => simp [Console.perform, print]

theorem performAll_gameOver (c : Console) (calls : List Call) :
    (Host.performAll c calls).gameOver = (c.gameOver || .gameOver ∈ calls) := by
  induction calls generalizing c with
  | nil => simp [Host.performAll]
  | cons call calls ih =>
    simp only [Host.performAll, List.foldl_cons] at ih ⊢
    rw [ih]
    have first : (Host.perform call c).gameOver = (c.gameOver || decide (.gameOver = call)) :=
      c.perform_gameOver call
    simp [first, Bool.or_assoc]

theorem perform_printed {c : Console} {call : Call} {money : Int64}
    (mem : .gameOver money ∈ (Console.perform call c).printed.toList) :
    .gameOver money ∈ c.printed.toList ∨ call = .gameOver ∧ money = c.player.money := by
  cases call with
  | display dialog => exact .inl (by simpa [Console.perform, print] using mem)
  | advance days =>
    simp only [Console.perform, advance] at mem
    split at mem
    · exact .inl (by simpa [print] using mem)
    · exact .inl mem
  | gameOver =>
    simp only [Console.perform, print, Array.toList_push, List.mem_append,
      List.mem_singleton] at mem
    rcases mem with old | same
    · exact .inl old
    · exact .inr ⟨rfl, Entry.gameOver.inj same⟩
  | _ => exact .inl mem

/-- Every amount that is printed at the end of a game is what the player had then. -/
theorem performAll_printed {c : Console} {calls : List Call} {money : Int64}
    (mem : .gameOver money ∈ (Host.performAll c calls).printed.toList) :
    .gameOver money ∈ c.printed.toList ∨ ∃ before after, calls = before ++ .gameOver :: after ∧
      money = (Host.performAll c before).player.money := by
  induction calls generalizing c with
  | nil => exact .inl mem
  | cons call calls ih =>
    rcases ih (c := Host.perform call c) mem with old | ⟨before, after, rfl, now⟩
    · rcases perform_printed old with old | ⟨rfl, now⟩
      · exact .inl old
      · exact .inr ⟨[], calls, rfl, now⟩
    · exact .inr ⟨call :: before, after, rfl, now⟩

/-- The same for the calls among some events. -/
theorem performAll_calls_printed {c : Console} {es : List Event} {money : Int64}
    (mem : .gameOver money ∈ (Host.performAll c (es.filterMap Event.call?)).printed.toList) :
    .gameOver money ∈ c.printed.toList ∨ ∃ before after,
      es = before ++ .call .gameOver :: after ∧ money = (c.player.after before).money := by
  rcases performAll_printed mem with old | ⟨calls, later, split, now⟩
  · exact .inl old
  · obtain ⟨first, second, split', rfl, tail⟩ := List.filterMap_eq_append_iff.1 split
    obtain ⟨quiet, e, last, rfl, none, called, -⟩ := List.filterMap_eq_cons_iff.1 tail
    obtain rfl := Event.call?_eq_some.1 called
    have same : quiet.filterMap Event.call? = [] := List.filterMap_eq_nil_iff.2 none
    refine .inr ⟨first ++ quiet, last, ?_, ?_⟩
    · rw [split', List.append_assoc]
    · rw [now, performAll_player, Player.after_eq_foldl, List.filterMap_append, same,
        List.append_nil]

end Console

namespace Stage

theorem Faithful.player {s : Stage Console} {t : Turn Console} (h : s.Faithful t) :
    t.stage.host.player = s.host.player.after t.events := by
  rw [h, Console.performAll_player, Player.after_eq_foldl]

theorem Faithful.gameOver {s : Stage Console} {t : Turn Console} (h : s.Faithful t) :
    t.stage.host.gameOver = (s.host.gameOver || .call .gameOver ∈ t.events) := by
  rw [h, Console.performAll_gameOver]
  simp only [mem_calls]

end Stage

end Storyline
