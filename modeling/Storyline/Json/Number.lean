/-!
# JSON numbers

A number in a JSON text is whole, floating, or too large for a double. Whole numbers are those
without fraction and exponent that fit 64 bits, with or without a sign; a negative zero is floating.

* `number_natural`, `number_negative`: the integers that fit 64 bits are whole.
-/

namespace Storyline.Json

/-- What a reader can tell of a number. -/
inductive Number where
  | whole (n : Int)
  | floating
  | tooLarge
  deriving DecidableEq, Repr

/-- The parts of a number's text: the digits before the point, those after it, and the exponent. -/
structure Numeral where
  negative : Bool
  integer : List Char
  fraction : Option (List Char)
  exponent : Option Int
  deriving DecidableEq, Repr

/-! ## Doubles -/

/-- The number of at most 53 significant bits next to `n`, the even one of two. -/
def round53 (n : Nat) : Nat :=
  let unit := 1 <<< (n.log2 + 1 - 53)
  let whole := n / unit
  let rest := 2 * (n % unit)
  let up := unit < rest || (unit == rest && whole % 2 == 1)
  (if up then whole + 1 else whole) * unit

/-- Whether the significand times the power of ten exceeds every double, when the significand, the
power and their product are each rounded. -/
def exceedsDouble (significand : Nat) (exponent : Int) : Bool :=
  significand != 0 && 0 ≤ exponent
    && (308 < exponent
      || 1 <<< 1024 ≤ round53 (round53 significand * round53 (Nat.pow 10 exponent.toNat)))

/-! ## Reading the digits -/

/-- Digits are added to the significand as long as it fits 64 bits; the others are left over. -/
def significand : Nat → List Char → Nat × List Char
  | n, [] => (n, [])
  | n, c :: cs =>
    let m := 10 * n + (c.toNat - '0'.toNat)
    if m < 0x10000000000000000 then significand m cs else (n, c :: cs)

/-- The significand of a numeral and its power of ten. Digits left over before the point raise the
power, digits read after it lower the power. -/
def Numeral.scaled (x : Numeral) : Nat × Int :=
  let (n, leftOver) := significand 0 x.integer
  let fraction := x.fraction.getD []
  let (m, unread) := significand n fraction
  (m, leftOver.length + x.exponent.getD 0 - ((fraction.length : Int) - unread.length))

/-- What a reader can tell of a numeral. -/
def Numeral.number (x : Numeral) : Number :=
  let (n, exponent) := x.scaled
  if x.fraction.isNone && x.exponent.isNone && exponent == 0 then
    if !x.negative then .whole n
    else if n == 0 || 0x8000000000000000 < n then .floating
    else .whole (-n)
  else if exceedsDouble n exponent then .tooLarge
  else .floating

theorem le_ofDigitChars (cs : List Char) (n : Nat) : n ≤ Nat.ofDigitChars 10 cs n := by
  induction cs generalizing n with
  | nil => simp
  | cons c cs ih =>
    rw [Nat.ofDigitChars_cons]
    exact Nat.le_trans (by omega) (ih _)

theorem significand_of_lt {cs : List Char} {n : Nat}
    (h : Nat.ofDigitChars 10 cs n < 0x10000000000000000) :
    significand n cs = (Nat.ofDigitChars 10 cs n, []) := by
  induction cs generalizing n with
  | nil => simp [significand]
  | cons c cs ih =>
    rw [Nat.ofDigitChars_cons] at h ⊢
    have := Nat.lt_of_le_of_lt (le_ofDigitChars cs _) h
    simp only [significand, this, if_true]
    exact ih h

theorem number_natural {n : Nat} (h : n < 0x10000000000000000) :
    Numeral.number ⟨false, Nat.toDigits 10 n, none, none⟩ = .whole n := by
  have hs : significand 0 (Nat.toDigits 10 n) = (n, []) := by
    rw [significand_of_lt] <;> rw [Nat.ofDigitChars_ten_toDigits]
    exact h
  simp [Numeral.number, Numeral.scaled, hs, significand]

theorem number_negative {n : Nat} (h₀ : 0 < n) (h : n ≤ 0x8000000000000000) :
    Numeral.number ⟨true, Nat.toDigits 10 n, none, none⟩ = .whole (-n) := by
  have hs : significand 0 (Nat.toDigits 10 n) = (n, []) := by
    rw [significand_of_lt] <;> rw [Nat.ofDigitChars_ten_toDigits]
    omega
  have : n ≠ 0 := by omega
  have : ¬ 0x8000000000000000 < n := by omega
  simp_all [Numeral.number, Numeral.scaled, significand]

end Storyline.Json
