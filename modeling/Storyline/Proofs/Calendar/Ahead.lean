import Mathlib.Logic.Function.Iterate
import Storyline.Calendar.Period
import Storyline.Proofs.Calendar.Month

/-!
# Periods ahead

A period leads to a day that is worked out without regard to where the calendar ends, and the
calendar has that day or it lies after the last one.

* `Period.after?_eq`: the date after some units is the one of the target day.
* `Period.le_after?`, `Period.lt_after?`: no period leads back.
* `Period.after?_eq_some_iff`, `Period.after?_eq_none_iff`: that date by its year, month and day.
* `Period.after?_mono`: later dates and longer periods lead no less far.
* `Period.after?_exact`: all of this, for all periods.
-/

namespace Storyline

namespace Date

theorem ofDay?_eq_none_iff {day : Int} :
    ofDay? day = none ↔ day < -95745764 ∨ 95745764 < day := by
  unfold ofDay?
  split
  · simp only [reduceCtorEq, false_iff]
    omega
  · simp only [true_iff]
    omega

/-- From a date on, days are missing at the end of the calendar only. -/
theorem ofDay?_eq_none_iff_lt (date : Date) {day : Int} (h : date.day ≤ day) :
    ofDay? day = none ↔ last.day < day := by
  have lower := date.first_le
  have final : last.day = 95745764 := rfl
  rw [ofDay?_eq_none_iff]
  omega

theorem monthIndex_mono {date date' : Date} (h : date ≤ date') :
    date.monthIndex ≤ date'.monthIndex := by
  have h : date.day ≤ date'.day := h
  have day := date.day_eq
  have day' := date'.day_eq
  have first' := date'.one_le_dayOfMonth
  have last' := date'.dayOfMonth_le
  have next' := monthStart_succ date'.monthIndex
  by_contra before
  have := monthStart_mono (i := date'.monthIndex + 1) (j := date.monthIndex) (by omega)
  omega

theorem monthIndex_add_one (date : Date) :
    date.monthIndex + 1 = 12 * date.year + date.month := by
  obtain ⟨k, -, month, -⟩ := date.exists_monthAndDay
  rw [monthIndex, month]
  omega

theorem monthSize_monthIndex (date : Date) :
    monthSize date.monthIndex = monthLength date.year date.month := by
  rw [monthSize, monthIndex_div, monthIndex_mod]

/-- A date is known by its month and its day in the month. -/
theorem day_eq_iff {date : Date} {index : Int} {n : Nat} (bound : n < monthSize index) :
    date.day = monthStart index + n ↔ date.monthIndex = index ∧ date.dayOfMonth = n + 1 := by
  have day := date.day_eq
  have first := date.one_le_dayOfMonth
  constructor
  · intro same
    have next := monthStart_succ index
    have month : date.monthIndex = index := monthIndex_eq (by omega) (by omega)
    rw [month] at day
    exact ⟨month, by omega⟩
  · rintro ⟨month, place⟩
    rw [month] at day
    omega

theorem last_year : last.year = 262142 := by decide +kernel

theorem last_month : last.month = 12 := by decide +kernel

theorem last_dayOfMonth : last.dayOfMonth = 31 := by decide +kernel

/-- The calendar ends with a month. -/
theorem monthStart_after_last : monthStart (last.monthIndex + 1) = last.day + 1 := by
  decide +kernel

theorem addDays?_bind (date : Date) (m n : Nat) :
    (date.addDays? m).bind (·.addDays? n) = date.addDays? (m + n : Nat) := by
  cases reached : date.addDays? m with
  | some d =>
    have day := addDays?_eq_some_iff.1 reached
    show ofDay? (d.day + n) = ofDay? (date.day + (m + n : Nat))
    rw [day]
    congr 1
    omega
  | none =>
    have beyond := (date.ofDay?_eq_none_iff_lt (by omega)).1 reached
    exact ((date.ofDay?_eq_none_iff_lt (by omega)).2 (by omega)).symm

/-- Going from day to day comes to the same date as going all the days at once. -/
theorem next?_iterate (date : Date) (n : Nat) :
    (fun found : Option Date => found.bind next?)^[n] (some date) = date.addDays? n := by
  induction n with
  | zero =>
    have here : date.addDays? 0 = some date := addDays?_eq_some_iff.2 (by omega)
    exact here.symm
  | succ n ih =>
    rw [Function.iterate_succ_apply', ih]
    exact date.addDays?_bind n 1

end Date

namespace Period

/-! ## The target -/

/-- The day to which so many units lead, whether or not the calendar has it. -/
def target (unit : Period) (amount : Nat) (date : Date) : Int :=
  match unit with
  | .day => date.day + amount
  | .week => date.day + 7 * amount
  | .month =>
    let index := date.monthIndex + amount
    monthStart index + (min date.dayOfMonth (monthSize index) - 1 : Nat)

theorem addMonths?_eq (date : Date) (months : Nat) :
    addMonths? date months = Date.ofDay? (month.target months date) := by
  have first := date.one_le_dayOfMonth
  have size : 0 < monthSize (date.monthIndex + months) := monthSize_pos _
  have civil : 1 ≤ ((date.monthIndex + months) % 12).toNat + 1 ∧
      ((date.monthIndex + months) % 12).toNat + 1 ≤ 12 ∧
      1 ≤ min date.dayOfMonth (monthSize (date.monthIndex + months)) ∧
      min date.dayOfMonth (monthSize (date.monthIndex + months)) ≤
        monthSize (date.monthIndex + months) := by
    refine ⟨?_, ?_, ?_, ?_⟩ <;> omega
  exact if_pos civil

/-- The date after some units is that of the target, as far as the calendar goes. -/
theorem after?_eq (unit : Period) (amount : UInt32) (date : Date) :
    unit.after? amount date = Date.ofDay? (unit.target amount.toNat date) := by
  cases unit with
  | day => rfl
  | week => rfl
  | month => exact addMonths?_eq date amount.toNat

/-- The target moves with the amount and with the date. -/
theorem target_mono (unit : Period) {a b : Nat} {date date' : Date} (amount : a ≤ b)
    (start : date ≤ date') : unit.target a date ≤ unit.target b date' := by
  have days : date.day ≤ date'.day := start
  cases unit with
  | day =>
    simp only [target]
    omega
  | week =>
    simp only [target]
    omega
  | month =>
    simp only [target]
    have months := Date.monthIndex_mono start
    have size := monthSize_pos (date.monthIndex + a)
    have next := monthStart_succ (date.monthIndex + a)
    by_cases same : date.monthIndex + a = date'.monthIndex + b
    · -- neither the month nor the amount can have grown, so the day in the month has
      have day := date.day_eq
      have day' := date'.day_eq
      have month : date'.monthIndex = date.monthIndex := by omega
      rw [month] at day'
      have first' := date'.one_le_dayOfMonth
      rw [← same]
      omega
    · have := monthStart_mono (i := date.monthIndex + a + 1) (j := date'.monthIndex + b) (by omega)
      omega

theorem target_zero (unit : Period) (date : Date) : unit.target 0 date = date.day := by
  cases unit with
  | day => exact Int.add_zero _
  | week => exact Int.add_zero _
  | month =>
    have day := date.day_eq
    have inside := date.dayOfMonth_le
    simp only [target, Int.natCast_zero, Int.add_zero, Nat.min_eq_left inside]
    omega

theorem le_target (unit : Period) (amount : Nat) (date : Date) :
    date.day ≤ unit.target amount date := by
  rw [← unit.target_zero date]
  exact unit.target_mono (Nat.zero_le amount) (Int.le_refl _)

theorem lt_target (unit : Period) {amount : Nat} (counted : amount ≠ 0) (date : Date) :
    date.day < unit.target amount date := by
  cases unit with
  | day =>
    simp only [target]
    omega
  | week =>
    simp only [target]
    omega
  | month =>
    have day := date.day_eq
    have last := date.dayOfMonth_le
    have first := date.one_le_dayOfMonth
    have next := monthStart_succ date.monthIndex
    have := monthStart_mono (i := date.monthIndex + 1) (j := date.monthIndex + amount) (by omega)
    simp only [target]
    omega

/-- No period leads back. -/
theorem le_after? {unit : Period} {amount : UInt32} {date date' : Date}
    (h : unit.after? amount date = some date') : date ≤ date' := by
  rw [after?_eq, Date.ofDay?_eq_some_iff] at h
  show date.day ≤ date'.day
  rw [h]
  exact unit.le_target amount.toNat date

/-- A period of some units leads ahead. -/
theorem lt_after? {unit : Period} {amount : UInt32} {date date' : Date} (counted : amount ≠ 0)
    (h : unit.after? amount date = some date') : date < date' := by
  have later : amount.toNat ≠ 0 := fun none => counted (UInt32.toNat_inj.1 none)
  rw [after?_eq, Date.ofDay?_eq_some_iff] at h
  show date.day < date'.day
  rw [h]
  exact unit.lt_target later date

/-! ## By the calendar -/

/-- A date lies so many units after another. -/
def Ahead (unit : Period) (amount : Nat) (date later : Date) : Prop :=
  match unit with
  | .day => later.day = date.day + amount
  | .week => later.day = date.day + 7 * amount
  | .month =>
    12 * later.year + later.month = 12 * date.year + date.month + amount ∧
      later.dayOfMonth = min date.dayOfMonth (monthLength later.year later.month)

/-- So many units lead past the last date. -/
def Beyond (unit : Period) (amount : Nat) (date : Date) : Prop :=
  match unit with
  | .day => Date.last.day < date.day + amount
  | .week => Date.last.day < date.day + 7 * amount
  | .month =>
    12 * Date.last.year + Date.last.month < 12 * date.year + date.month + amount

theorem day_eq_target_iff (unit : Period) (amount : Nat) (date later : Date) :
    later.day = unit.target amount date ↔ unit.Ahead amount date later := by
  cases unit with
  | day => exact Iff.rfl
  | week => exact Iff.rfl
  | month =>
    have first := date.one_le_dayOfMonth
    have size := monthSize_pos (date.monthIndex + amount)
    have index := date.monthIndex_add_one
    have index' := later.monthIndex_add_one
    have size' := later.monthSize_monthIndex
    simp only [target, Ahead]
    rw [Date.day_eq_iff (by omega), ← size', ← index, ← index']
    constructor
    · rintro ⟨month, place⟩
      rw [month]
      omega
    · rintro ⟨month, place⟩
      have month : later.monthIndex = date.monthIndex + amount := by omega
      rw [month] at place
      omega

theorem last_lt_target_iff (unit : Period) (amount : Nat) (date : Date) :
    Date.last.day < unit.target amount date ↔ unit.Beyond amount date := by
  cases unit with
  | day => exact Iff.rfl
  | week => exact Iff.rfl
  | month =>
    have index := date.monthIndex_add_one
    have final := Date.last.monthIndex_add_one
    have size := monthSize_pos (date.monthIndex + amount)
    have next := monthStart_succ (date.monthIndex + amount)
    have ends := Date.monthStart_after_last
    simp only [target, Beyond]
    rw [← index, ← final]
    constructor
    · intro after
      by_contra within
      have := monthStart_mono (i := date.monthIndex + amount + 1) (j := Date.last.monthIndex + 1)
        (by omega)
      omega
    · intro after
      have := monthStart_mono (i := Date.last.monthIndex + 1) (j := date.monthIndex + amount)
        (by omega)
      omega

theorem after?_eq_some_iff (unit : Period) (amount : UInt32) (date later : Date) :
    unit.after? amount date = some later ↔ unit.Ahead amount.toNat date later := by
  rw [after?_eq, Date.ofDay?_eq_some_iff, day_eq_target_iff]

theorem after?_eq_none_iff (unit : Period) (amount : UInt32) (date : Date) :
    unit.after? amount date = none ↔ unit.Beyond amount.toNat date := by
  rw [after?_eq, date.ofDay?_eq_none_iff_lt (unit.le_target amount.toNat date), last_lt_target_iff]

/-! ## Periods compared -/

/-- What a longer period from a later date leads to bounds what a shorter one leads to. -/
theorem after?_mono (unit : Period) {a b : UInt32} {date date' later : Date} (amount : a ≤ b)
    (start : date ≤ date') (h : unit.after? b date' = some later) :
    ∃ d, unit.after? a date = some d ∧ date ≤ d ∧ d ≤ later := by
  rw [after?_eq, Date.ofDay?_eq_some_iff] at h
  have lower := unit.le_target a.toNat date
  have upper := unit.target_mono (UInt32.le_iff_toNat_le.1 amount) start
  have first := date.first_le
  have last := later.le_last
  refine ⟨⟨unit.target a.toNat date, by omega, by omega⟩, ?_, lower, ?_⟩
  · rw [after?_eq, Date.ofDay?_eq_some_iff]
  · show unit.target a.toNat date ≤ later.day
    omega

theorem day_after?_bind {a b : UInt32} (fits : a.toNat + b.toNat < 2 ^ 32) (date : Date) :
    (day.after? a date).bind (day.after? b) = day.after? (a + b) date := by
  have sum : (a + b).toNat = a.toNat + b.toNat := by
    rw [UInt32.toNat_add, Nat.mod_eq_of_lt fits]
  show (date.addDays? a.toNat).bind (·.addDays? b.toNat) = date.addDays? (a + b).toNat
  rw [sum, date.addDays?_bind]

theorem week_after?_eq {a : UInt32} (fits : 7 * a.toNat < 2 ^ 32) (date : Date) :
    week.after? a date = day.after? (7 * a) date := by
  have product : (7 * a).toNat = 7 * a.toNat := by
    rw [UInt32.toNat_mul]
    exact Nat.mod_eq_of_lt fits
  show date.addDays? (7 * a.toNat) = date.addDays? (7 * a).toNat
  rw [product]
  rfl

theorem week_after?_bind {a b : UInt32} (fits : a.toNat + b.toNat < 2 ^ 32) (date : Date) :
    (week.after? a date).bind (week.after? b) = week.after? (a + b) date := by
  have sum : (a + b).toNat = a.toNat + b.toNat := by
    rw [UInt32.toNat_add, Nat.mod_eq_of_lt fits]
  have joined := date.addDays?_bind (7 * a.toNat) (7 * b.toNat)
  rw [← Nat.mul_add, ← sum] at joined
  exact joined

/-- A period is exact in the whole calendar. Days and weeks lead so many days on, and months keep
the day in the month as far as the target month has it; there is no date only if the target lies
after 31 December of year 262142. So no period leads back, a longer one or one from a later date
leads no less far, days and weeks add up, and a week is seven days. -/
theorem after?_exact :
    (∀ unit amount date later,
      after? unit amount date = some later ↔ unit.Ahead amount.toNat date later) ∧
    (∀ unit amount date, after? unit amount date = none ↔ unit.Beyond amount.toNat date) ∧
    (Date.last.year = 262142 ∧ Date.last.month = 12 ∧ Date.last.dayOfMonth = 31 ∧
      ∀ date, date ≤ Date.last) ∧
    (∀ amount date, day.after? amount date =
      (fun found : Option Date => found.bind Date.next?)^[amount.toNat] (some date)) ∧
    (∀ unit amount date later, after? unit amount date = some later → date ≤ later) ∧
    (∀ unit a b date date' later, a ≤ b → date ≤ date' → after? unit b date' = some later →
      ∃ d, unit.after? a date = some d ∧ d ≤ later) ∧
    (∀ unit a b date, unit = day ∨ unit = week → a.toNat + b.toNat < 2 ^ 32 →
      (after? unit a date).bind (unit.after? b) = unit.after? (a + b) date) ∧
    ∀ a date, 7 * a.toNat < 2 ^ 32 → week.after? a date = day.after? (7 * a) date := by
  refine ⟨after?_eq_some_iff, after?_eq_none_iff,
    ⟨Date.last_year, Date.last_month, Date.last_dayOfMonth, Date.le_last⟩, ?_, ?_, ?_, ?_, ?_⟩
  · intro amount date
    exact (date.next?_iterate amount.toNat).symm
  · intro unit amount date later found
    exact le_after? found
  · intro unit a b date date' later amount start found
    obtain ⟨d, reached, -, bound⟩ := unit.after?_mono amount start found
    exact ⟨d, reached, bound⟩
  · rintro unit a b date (rfl | rfl) fits
    · exact day_after?_bind fits date
    · exact week_after?_bind fits date
  · intro a date fits
    exact week_after?_eq fits date

/-- 31 January 2024, with 29 February a month later, and the last date, with nothing after it. -/
theorem after?_exact_leap_year :
    month.Ahead 1 ⟨739281, by omega, by omega⟩ ⟨739310, by omega, by omega⟩ ∧
      (∃ d, month.after? 1 ⟨739281, by omega, by omega⟩ = some d ∧
        d ≤ ⟨739341, by omega, by omega⟩) ∧
      (⟨739281, by omega, by omega⟩ : Date) ≤ ⟨739310, by omega, by omega⟩ ∧
      day.Beyond 4294967295 Date.last ∧
      (week.after? 3 Date.last).bind (week.after? 4) = week.after? 7 Date.last ∧
      week.after? 2 Date.last = day.after? 14 Date.last := by
  obtain ⟨reached, missing, -, -, onward, mono, additive, weeks⟩ := after?_exact
  have february : month.after? 1 ⟨739281, by omega, by omega⟩ =
      some ⟨739310, by omega, by omega⟩ := by decide +kernel
  have march : month.after? 2 ⟨739281, by omega, by omega⟩ =
      some ⟨739341, by omega, by omega⟩ := by decide +kernel
  exact ⟨(reached month 1 _ _).1 february,
    mono month 1 2 _ _ _ (by decide) (Int.le_refl _) march,
    onward month 1 _ _ february,
    (missing day 4294967295 Date.last).1 (by decide +kernel),
    additive week 3 4 Date.last (.inr rfl) (by decide),
    weeks 2 Date.last (by decide)⟩

end Period

end Storyline
