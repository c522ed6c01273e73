import Storyline.Random.Generator

/-!
# Draws

* `Generator.draw_of_take?`, `Generator.draw_of_refused`: a draw reads until a number is accepted.
* `Generator.draw_lt`: a number that is drawn lies below the bound.
-/

namespace Storyline

/-! ## Reading -/

namespace Generator

theorem read_lt (g : Generator) (wide : Bool) : (g.read wide).1 < span wide := by
  have low : g.next.1.toNat < 0x100000000 := g.next.1.toNat_lt
  have high : g.next.2.next.1.toNat < 0x100000000 := g.next.2.next.1.toNat_lt
  cases wide with
  | false => exact low
  | true =>
    simp only [read, span, if_true]
    omega

theorem words_read (g : Generator) (wide : Bool) : (g.read wide).2.words = g.words := by
  cases wide <;> rfl

end Generator

/-! ## Drawing -/

namespace Lottery

variable {l : Lottery} {reading n : Nat}

theorem take?_eq_some_iff :
    l.take? reading = some n ↔ reading * l.bound / Generator.span l.wide = n ∧
      reading * l.bound % Generator.span l.wide ≤ l.zone := by
  simp only [take?, Option.ite_none_right_eq_some, Option.some.injEq]
  exact and_comm

theorem take?_lt (positive : 0 < l.bound) (inside : reading < Generator.span l.wide)
    (h : l.take? reading = some n) : n < l.bound := by
  obtain ⟨rfl, -⟩ := take?_eq_some_iff.1 h
  exact Nat.div_lt_of_lt_mul (Nat.mul_lt_mul_of_pos_right inside positive)

theorem drawUntil_lt (positive : 0 < l.bound) (g : Generator) (drawn : Nat × Generator)
    (h : l.drawUntil g = some drawn) : drawn.1 < l.bound := by
  refine drawUntil.partial_correctness l (fun _ drawn => drawn.1 < l.bound) ?_ g drawn h
  intro rest below g drawn first
  split at first
  · rename_i n taken
    obtain rfl := Option.some.inj first
    exact take?_lt positive (g.read_lt l.wide) taken
  · exact below _ _ first

end Lottery

namespace Generator

variable {l : Lottery} {g : Generator}

theorem draw_of_take? {n : Nat} (h : l.take? (g.read l.wide).1 = some n) :
    g.draw l = (n, (g.read l.wide).2) := by
  rw [draw, Lottery.drawUntil, h]
  rfl

theorem draw_of_refused (h : l.take? (g.read l.wide).1 = none) :
    g.draw l = (g.read l.wide).2.draw l := by
  rw [draw, Lottery.drawUntil, h, draw, words_read]
  rfl

theorem draw_lt (positive : 0 < l.bound) (g : Generator) : (g.draw l).1 < l.bound := by
  unfold draw
  cases h : l.drawUntil g with
  | none => exact positive
  | some drawn => exact Lottery.drawUntil_lt positive g drawn h

end Generator

end Storyline
