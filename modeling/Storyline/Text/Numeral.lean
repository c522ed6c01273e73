/-!
# Decimal numerals

Numbers as runs of decimal digits, with an optional sign where a format admits one.

* `digits?_toDigits`: the digits of a number read back as the number.
-/

namespace Storyline.Text

/-- A nonempty run of the digits `0` to `9`, leading zeros included. -/
def digits? (cs : List Char) : Option Nat :=
  if cs.isEmpty || !cs.all Char.isDigit then none else some (Nat.ofDigitChars 10 cs 0)

/-- Digits after an optional plus sign. -/
def natural? : List Char → Option Nat
  | '+' :: cs => digits? cs
  | cs => digits? cs

/-- Digits after an optional sign. -/
def integer? : List Char → Option Int
  | '-' :: cs => (digits? cs).map fun n => -(n : Int)
  | cs => (natural? cs).map fun n => (n : Int)

theorem digits?_toDigits (n : Nat) : digits? (Nat.toDigits 10 n) = some n := by
  have hd : (Nat.toDigits 10 n).all Char.isDigit = true :=
    List.all_eq_true.2 fun c hc => Nat.isDigit_of_mem_toDigits (by decide) (by decide) hc
  have hn : (Nat.toDigits 10 n).isEmpty = false := by
    simp [Nat.toDigits_ne_nil]
  simp [digits?, hd, hn, Nat.ofDigitChars_ten_toDigits]

/-- A number is written with its digits, never with a plus sign. -/
theorem natural?_toDigits (n : Nat) : natural? (Nat.toDigits 10 n) = some n := by
  cases h : Nat.toDigits 10 n with
  | nil => exact absurd h Nat.toDigits_ne_nil
  | cons c cs =>
    have hc : c.isDigit = true :=
      Nat.isDigit_of_mem_toDigits (b := 10) (n := n) (by decide) (by decide) (by rw [h]; simp)
    have : c ≠ '+' := by rintro rfl; simp at hc
    have hd := digits?_toDigits n
    rw [h] at hd
    unfold natural?
    split
    · next heq => simp_all
    · exact hd

end Storyline.Text
