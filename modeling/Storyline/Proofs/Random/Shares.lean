import Mathlib.Algebra.Order.BigOperators.Group.Finset
import Mathlib.Data.Nat.Count
import Mathlib.Data.Nat.Log
import Mathlib.Order.Interval.Finset.Nat
import Storyline.Proofs.Random.Draw

/-!
# Shares of a draw

A lottery is fair if it accepts as many readings for each number as for any other.

* `Lottery.Fair.card_take?`: the readings accepted for a number.
* `Lottery.Fair.count_among`, `Lottery.Fair.count_refused`: the readings accepted for one of some
  numbers, and those that are passed over.
* `Lottery.uniform_fair`, `Lottery.shares_fair`: the lotteries that are drawn from are fair.
-/

namespace Storyline.Lottery

/-- The readings accepted fill the same part of a span for each number, with none left over. -/
structure Fair (l : Lottery) (share : Nat) : Prop where
  zone : l.zone + 1 = l.bound * share
  fits : l.bound * share ≤ Generator.span l.wide

/-! ## The readings of a number -/

namespace Fair

variable {l : Lottery} {share : Nat}

theorem take?_eq_some_iff (fair : l.Fair share) {reading n : Nat} :
    l.take? reading = some n ↔ n * Generator.span l.wide ≤ reading * l.bound ∧
      reading * l.bound < n * Generator.span l.wide + l.bound * share := by
  have split := Nat.div_add_mod (reading * l.bound) (Generator.span l.wide)
  have zone := fair.zone
  have fits := fair.fits
  rw [Nat.mul_comm] at split
  rw [Lottery.take?_eq_some_iff]
  constructor
  · rintro ⟨rfl, low⟩
    omega
  · rintro ⟨lower, upper⟩
    have quotient : reading * l.bound / Generator.span l.wide = n := by
      refine Nat.div_eq_of_lt_le lower ?_
      rw [Nat.succ_mul]
      omega
    rw [quotient] at split ⊢
    omega

/-- The readings of a number are those from the first whose product reaches it. -/
theorem readings_eq (fair : l.Fair share) {n : Nat} (bound : n < l.bound) :
    ∃ first, (Finset.range (Generator.span l.wide)).filter (fun r => l.take? r = some n) =
      Finset.Ico first (first + share) := by
  let start := n * Generator.span l.wide
  obtain ⟨first, reaches, least⟩ : ∃ first, start ≤ first * l.bound ∧
      first * l.bound < start + l.bound := by
    refine ⟨(start + l.bound - 1) / l.bound, ?_⟩
    have split := Nat.div_add_mod (start + l.bound - 1) l.bound
    have rest := Nat.mod_lt (start + l.bound - 1) (Nat.zero_lt_of_lt bound)
    rw [Nat.mul_comm] at split
    omega
  have fits := fair.fits
  have within : start + Generator.span l.wide ≤ Generator.span l.wide * l.bound := by
    rw [← Nat.succ_mul, Nat.mul_comm]
    exact Nat.mul_le_mul_left _ bound
  refine ⟨first, Finset.ext fun r => ?_⟩
  rw [Finset.mem_filter, Finset.mem_range, Finset.mem_Ico, fair.take?_eq_some_iff]
  constructor
  · rintro ⟨-, lower, upper⟩
    constructor
    · by_contra before
      have : (r + 1) * l.bound ≤ first * l.bound := Nat.mul_le_mul_right _ (by omega)
      rw [Nat.succ_mul] at this
      omega
    · by_contra behind
      have : (first + share) * l.bound ≤ r * l.bound := Nat.mul_le_mul_right _ (by omega)
      rw [Nat.add_mul, Nat.mul_comm share] at this
      omega
  · rintro ⟨lower, upper⟩
    have above : first * l.bound ≤ r * l.bound := Nat.mul_le_mul_right _ lower
    have below : (r + 1) * l.bound ≤ (first + share) * l.bound := Nat.mul_le_mul_right _ upper
    rw [Nat.succ_mul, Nat.add_mul, Nat.mul_comm share] at below
    have inside : r * l.bound < Generator.span l.wide * l.bound := by omega
    exact ⟨Nat.lt_of_mul_lt_mul_right inside, by omega, by omega⟩

theorem card_take? (fair : l.Fair share) {n : Nat} (bound : n < l.bound) :
    ((Finset.range (Generator.span l.wide)).filter fun r => l.take? r = some n).card = share := by
  obtain ⟨first, readings⟩ := fair.readings_eq bound
  rw [readings, Nat.card_Ico, Nat.add_sub_cancel_left]

/-! ## The readings of some numbers -/

theorem count_among (fair : l.Fair share) (numbers : Finset Nat)
    (below : ∀ n ∈ numbers, n < l.bound) :
    Nat.count (fun r => ∃ n ∈ numbers, l.take? r = some n) (Generator.span l.wide) =
      share * numbers.card := by
  have union : (Finset.range (Generator.span l.wide)).filter
      (fun r => ∃ n ∈ numbers, l.take? r = some n) = numbers.biUnion fun n =>
        (Finset.range (Generator.span l.wide)).filter fun r => l.take? r = some n := by
    ext r
    simp only [Finset.mem_filter, Finset.mem_biUnion]
    tauto
  have disjoint : ∀ n ∈ numbers, ∀ m ∈ numbers, n ≠ m → Disjoint
      ((Finset.range (Generator.span l.wide)).filter fun r => l.take? r = some n)
      ((Finset.range (Generator.span l.wide)).filter fun r => l.take? r = some m) := by
    intro n _ m _ different
    rw [Finset.disjoint_filter]
    intro r _ first second
    exact different (Option.some.inj (first.symm.trans second))
  rw [Nat.count_eq_card_filter_range, union, Finset.card_biUnion disjoint,
    Finset.sum_const_nat fun n mem => fair.card_take? (below n mem), Nat.mul_comm]

theorem count_take? (fair : l.Fair share) {n : Nat} (bound : n < l.bound) :
    Nat.count (fun r => l.take? r = some n) (Generator.span l.wide) = share := by
  rw [Nat.count_eq_card_filter_range, fair.card_take? bound]

theorem count_refused (fair : l.Fair share) (positive : 0 < l.bound) :
    Nat.count (fun r => l.take? r = none) (Generator.span l.wide) =
      Generator.span l.wide - l.bound * share := by
  have taken := fair.count_among (Finset.range l.bound) (by simp)
  rw [Nat.count_eq_card_filter_range, Finset.card_range] at taken
  have both := Finset.card_filter_add_card_filter_not
    (s := Finset.range (Generator.span l.wide))
    (fun r => ∃ n ∈ Finset.range l.bound, l.take? r = some n)
  have refused : (Finset.range (Generator.span l.wide)).filter
      (fun r => ¬ ∃ n ∈ Finset.range l.bound, l.take? r = some n) =
        (Finset.range (Generator.span l.wide)).filter fun r => l.take? r = none := by
    refine Finset.filter_congr fun r inside => ?_
    cases taken : l.take? r with
    | none => simp
    | some n => simp [take?_lt positive (Finset.mem_range.1 inside) taken]
  rw [refused, taken, Finset.card_range] at both
  rw [Nat.count_eq_card_filter_range, Nat.mul_comm]
  omega

end Fair

/-! ## The lotteries drawn from -/

theorem fair_shiftLeft {n k : Nat} (positive : 0 < n) (wide : Bool)
    (fits : n * 2 ^ k ≤ Generator.span wide) : Fair ⟨n, (n <<< k) - 1, wide⟩ (2 ^ k) := by
  have product : 0 < n * 2 ^ k := Nat.mul_pos positive (Nat.two_pow_pos k)
  refine ⟨?_, fits⟩
  rw [Nat.shiftLeft_eq]
  exact Nat.sub_add_cancel product

theorem mul_pow_log2_le {n bits : Nat} (positive : n ≠ 0) (small : n < 2 ^ (bits + 1)) :
    n * 2 ^ (bits - n.log2) ≤ 2 ^ (bits + 1) := by
  have log : n.log2 < bits + 1 := (Nat.log2_lt positive).2 small
  calc n * 2 ^ (bits - n.log2) ≤ 2 ^ (n.log2 + 1) * 2 ^ (bits - n.log2) :=
        Nat.mul_le_mul_right _ Nat.lt_log2_self.le
    _ = 2 ^ (bits + 1) := by
        rw [← Nat.pow_add]
        congr 1
        omega

theorem uniform_fair {n : Nat} (positive : 0 < n) (small : n < 2 ^ 64) :
    ∃ share, 0 < share ∧ (uniform n).Fair share := by
  unfold uniform
  split
  · rename_i narrow
    exact ⟨_, Nat.two_pow_pos _, fair_shiftLeft positive false
      (mul_pow_log2_le positive.ne' narrow)⟩
  · exact ⟨_, Nat.two_pow_pos _, fair_shiftLeft positive true
      (mul_pow_log2_le positive.ne' small)⟩

theorem wide_uniform {n : Nat} (small : n < 2 ^ 32) : (uniform n).wide = false := by
  have narrow : n < 0x100000000 := small
  simp only [uniform, if_pos narrow]

theorem shares_fair {n : Nat} (positive : 0 < n) (small : n < 2 ^ 32) :
    (shares n).Fair (2 ^ 32 / n) := by
  have split := Nat.div_add_mod (2 ^ 32) n
  have rest := Nat.mod_lt (2 ^ 32) positive
  have same : (2 ^ 32 - n) % n = 2 ^ 32 % n := (Nat.mod_eq_sub_mod small.le).symm
  constructor
  · change 0xFFFFFFFF - (2 ^ 32 - n) % n + 1 = n * (2 ^ 32 / n)
    omega
  · exact Nat.mul_div_le (2 ^ 32) n

end Storyline.Lottery
