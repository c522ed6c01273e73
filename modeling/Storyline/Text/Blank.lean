/-!
# Blanks

The characters that count as white space when free text is read: a line typed by the player, or a
date given by hand.

* `trim_eq_nil_iff`: nothing is left of a text exactly when it holds blanks only.
-/

namespace Storyline.Text

/-- Blanks are the controls from tab to carriage return, the next-line control, and every
separator for words, lines or paragraphs. -/
def isBlank (c : Char) : Bool :=
  let n := c.toNat
  (0x09 ≤ n && n ≤ 0x0D) || n == 0x20 || n == 0x85 || n == 0xA0 || n == 0x1680
    || (0x2000 ≤ n && n ≤ 0x200A) || n == 0x2028 || n == 0x2029 || n == 0x202F || n == 0x205F
    || n == 0x3000

def trimStart (cs : List Char) : List Char :=
  cs.dropWhile isBlank

def trim (cs : List Char) : List Char :=
  (trimStart (trimStart cs).reverse).reverse

theorem trimStart_eq_nil_iff {cs : List Char} : trimStart cs = [] ↔ ∀ c ∈ cs, isBlank c := by
  induction cs with
  | nil => simp [trimStart]
  | cons c cs ih =>
    by_cases h : isBlank c
    · rw [trimStart] at ih ⊢
      simp [h, ih]
    · simp [trimStart, h]

theorem trim_eq_nil_iff {cs : List Char} : trim cs = [] ↔ ∀ c ∈ cs, isBlank c := by
  unfold trim
  rw [List.reverse_eq_nil_iff, trimStart_eq_nil_iff]
  constructor
  · intro h
    rw [← trimStart_eq_nil_iff]
    cases hs : trimStart cs with
    | nil => rfl
    | cons c r =>
      exfalso
      have hc : isBlank c = true := h c (by rw [hs]; simp)
      have : isBlank c = false := by
        have := List.head?_dropWhile_not isBlank cs
        rw [show cs.dropWhile isBlank = c :: r from hs] at this
        simpa using this
      simp [this] at hc
  · intro h
    rw [trimStart_eq_nil_iff.2 h]
    simp

end Storyline.Text
