import Mathlib.Data.List.Induction
import Storyline.Text.Numeral

/-!
# Spellings of numbers

* `Text.digits?_eq_some_iff`: the runs of digits that read as a number are its digits behind zeros.
* `Text.natural?_eq_some_iff`: one of them may also stand behind a plus sign.
* `Text.eq_toDigits_iff`: the digits alone are the only spelling that is not embellished.
-/

namespace Storyline.Text

/-- The digits of a number behind so many zeros. -/
def padded (zeros n : Nat) : List Char :=
  List.replicate zeros '0' ++ Nat.toDigits 10 n

/-- Whether a spelling has a plus sign, or a zero in front. -/
def Embellished (cs : List Char) : Prop :=
  cs.head? = some '+' ∨ cs.head? = some '0' ∧ cs ≠ ['0']

theorem digit_range {c : Char} (digit : c.isDigit) : 48 ≤ c.toNat ∧ c.toNat ≤ 57 := by
  rw [Char.isDigit, Bool.and_eq_true, decide_eq_true_eq, decide_eq_true_eq] at digit
  exact ⟨UInt32.le_iff_toNat_le.1 digit.1, UInt32.le_iff_toNat_le.1 digit.2⟩

theorem digit_lt {c : Char} (digit : c.isDigit) : c.toNat - '0'.toNat < 10 := by
  have := digit_range digit
  have zero : '0'.toNat = 48 := rfl
  omega

theorem digitChar_digit {c : Char} (digit : c.isDigit) :
    Nat.digitChar (c.toNat - '0'.toNat) = c := by
  have := digit_range digit
  have zero : '0'.toNat = 48 := rfl
  apply Char.toNat_inj.1
  rw [Nat.toNat_digitChar_of_lt_ten (digit_lt digit)]
  omega

theorem isDigit_padded {zeros n : Nat} {c : Char} (mem : c ∈ padded zeros n) : c.isDigit := by
  rcases List.mem_append.1 mem with zero | digit
  · rw [List.eq_of_mem_replicate zero]
    rfl
  · exact Nat.isDigit_of_mem_toDigits (by decide) (by decide) digit

theorem padded_ne_nil (zeros n : Nat) : padded zeros n ≠ [] := by
  simp [padded, Nat.toDigits_ne_nil]

theorem ofDigitChars_padded (zeros n : Nat) : Nat.ofDigitChars 10 (padded zeros n) 0 = n := by
  rw [padded, Nat.ofDigitChars_append, Nat.ofDigitChars_replicate_zero, Nat.mul_zero,
    Nat.ofDigitChars_ten_toDigits]

theorem exists_padded {cs : List Char} (nonempty : cs ≠ []) (digits : ∀ c ∈ cs, c.isDigit) :
    ∃ zeros, cs = padded zeros (Nat.ofDigitChars 10 cs 0) := by
  -- Digits are added behind those read so far, so the last one is taken off.
  induction cs using List.reverseRecOn with
  | nil => contradiction
  | append_singleton front c ih =>
    have digit : c.isDigit := digits c (by simp)
    have below := digit_lt digit
    have last : Nat.toDigits 10 (c.toNat - '0'.toNat) = [c] := by
      rw [Nat.toDigits_of_lt_base below, digitChar_digit digit]
    have value : Nat.ofDigitChars 10 (front ++ [c]) 0 =
        10 * Nat.ofDigitChars 10 front 0 + (c.toNat - '0'.toNat) := by
      rw [Nat.ofDigitChars_append, Nat.ofDigitChars_cons, Nat.ofDigitChars_nil]
    by_cases empty : front = []
    · subst empty
      refine ⟨0, ?_⟩
      rw [value, Nat.ofDigitChars_nil, Nat.mul_zero, Nat.zero_add, padded, last]
      rfl
    · obtain ⟨zeros, padding⟩ := ih empty fun c mem => digits c (List.mem_append_left _ mem)
      rw [value]
      rcases Nat.eq_zero_or_pos (Nat.ofDigitChars 10 front 0) with zero | positive
      · refine ⟨zeros + 1, ?_⟩
        rw [zero] at padding ⊢
        rw [Nat.mul_zero, Nat.zero_add, padded, last, List.replicate_succ', padding, padded,
          Nat.toDigits_zero]
      · refine ⟨zeros, ?_⟩
        rw [padded, ← Nat.toDigits_append_toDigits (by decide) positive below, last,
          ← List.append_assoc, ← padded, ← padding]

theorem digits?_padded (zeros n : Nat) : digits? (padded zeros n) = some n := by
  have all : (padded zeros n).all Char.isDigit := List.all_eq_true.2 fun _ => isDigit_padded
  simp [digits?, all, padded_ne_nil, ofDigitChars_padded]

theorem digits?_eq_some_iff {cs : List Char} {n : Nat} :
    digits? cs = some n ↔ ∃ zeros, cs = padded zeros n := by
  constructor
  · intro read
    unfold digits? at read
    split at read
    · contradiction
    · rename_i fine
      obtain ⟨nonempty, digits⟩ : cs ≠ [] ∧ ∀ c ∈ cs, c.isDigit := by simpa using fine
      obtain rfl := Option.some.inj read
      exact exists_padded nonempty digits
  · rintro ⟨zeros, rfl⟩
    exact digits?_padded zeros n

theorem natural?_of_digit {c : Char} (digit : c.isDigit) (cs : List Char) :
    natural? (c :: cs) = digits? (c :: cs) := by
  unfold natural?
  split
  · rename_i same
    obtain ⟨rfl, -⟩ := List.cons.inj same
    contradiction
  · rfl

theorem natural?_eq_some_iff {cs : List Char} {n : Nat} :
    natural? cs = some n ↔ ∃ zeros, cs = padded zeros n ∨ cs = '+' :: padded zeros n := by
  constructor
  · intro read
    unfold natural? at read
    split at read
    · obtain ⟨zeros, rfl⟩ := digits?_eq_some_iff.1 read
      exact ⟨zeros, .inr rfl⟩
    · obtain ⟨zeros, rfl⟩ := digits?_eq_some_iff.1 read
      exact ⟨zeros, .inl rfl⟩
  · rintro ⟨zeros, rfl | rfl⟩
    · cases digits : padded zeros n with
      | nil => exact absurd digits (padded_ne_nil zeros n)
      | cons c cs =>
        have digit : c.isDigit := isDigit_padded (digits ▸ List.mem_cons_self)
        rw [natural?_of_digit digit, ← digits, digits?_padded]
    · exact digits?_padded zeros n

theorem eq_zero_of_toDigits {n : Nat} {cs : List Char} (h : Nat.toDigits 10 n = '0' :: cs) :
    n = 0 := by
  induction n using Nat.strongRecOn generalizing cs with
  | ind n ih =>
    rcases Nat.lt_or_ge n 10 with small | large
    · rw [Nat.toDigits_of_lt_base small] at h
      exact Nat.digitChar_eq_zero.1 (List.cons.inj h).1
    · rw [Nat.toDigits_of_base_le (by decide) large] at h
      cases front : Nat.toDigits 10 (n / 10) with
      | nil => exact absurd front Nat.toDigits_ne_nil
      | cons c rest =>
        rw [front] at h
        obtain ⟨rfl, -⟩ := List.cons.inj h
        have := ih (n / 10) (by omega) front
        omega

theorem padded_succ (zeros n : Nat) : padded (zeros + 1) n = '0' :: padded zeros n := rfl

theorem not_embellished_toDigits (n : Nat) : ¬ Embellished (Nat.toDigits 10 n) := by
  rintro (plus | ⟨zero, more⟩)
  · have mem := List.mem_of_head? plus
    have := Nat.isDigit_of_mem_toDigits (by decide) (by decide) mem
    contradiction
  · obtain ⟨cs, digits⟩ := List.head?_eq_some_iff.1 zero
    obtain rfl := eq_zero_of_toDigits digits
    exact more (Nat.toDigits_zero 10)

theorem eq_toDigits_iff {cs : List Char} {n : Nat} (read : natural? cs = some n) :
    cs = Nat.toDigits 10 n ↔ ¬ Embellished cs := by
  refine ⟨fun digits => digits ▸ not_embellished_toDigits n, fun plain => ?_⟩
  obtain ⟨zeros, rfl | rfl⟩ := natural?_eq_some_iff.1 read
  · cases zeros with
    | zero => rfl
    | succ zeros =>
      refine absurd (.inr ⟨rfl, fun alone => ?_⟩) plain
      rw [padded_succ] at alone
      exact padded_ne_nil zeros n (List.cons.inj alone).2
  · exact absurd (.inl rfl) plain

end Storyline.Text
