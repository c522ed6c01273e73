import Mathlib.Algebra.Ring.Nat
import Storyline.Calendar.NewDay

/-!
# Months in a row

Months are numbered through the years, so that the month after December of one year is January of
the next. A date is then a month and a day in it, and dates are ordered by the two.

* `Date.day_eq`: a date by its month and its day in the month.
* `NewDay.newMonth_iff`, `NewDay.newYear_iff`: what begins with a day is seen from its date alone.
-/

namespace Storyline

/-- The distance of the first day of a month from 1 January of year 0. -/
def monthStart (index : Int) : Int :=
  yearStart (index / 12) + Date.daysBefore (index / 12) ((index % 12).toNat + 1)

def monthSize (index : Int) : Nat :=
  monthLength (index / 12) ((index % 12).toNat + 1)

/-! ## Months of a year -/

theorem sum_take_succ (lengths : List Nat) (k : Nat) :
    (lengths.take (k + 1)).sum = (lengths.take k).sum + lengths.getD k 0 := by
  rw [List.take_add_one, List.sum_append, List.getD_eq_getElem?_getD]
  cases lengths[k]? <;> simp

theorem splitMonths_eq (month : Nat) {lengths : List Nat} {before : Nat}
    (h : before < lengths.sum) :
    ∃ k, k < lengths.length ∧ (lengths.take k).sum ≤ before ∧
      before < (lengths.take (k + 1)).sum ∧
      splitMonths month lengths before = (month + k, before - (lengths.take k).sum + 1) := by
  induction lengths generalizing month before with
  | nil => simp at h
  | cons length lengths ih =>
    by_cases first : before < length
    · exact ⟨0, by simp, by simp, by simpa using first, by simp [splitMonths, first]⟩
    · rw [List.sum_cons] at h
      have inner : before - length < lengths.sum := by omega
      obtain ⟨k, bound, lower, upper, split⟩ := ih (month + 1) inner
      refine ⟨k + 1, by simpa using bound, ?_, ?_, ?_⟩
      · rw [List.take_succ_cons, List.sum_cons]
        omega
      · rw [List.take_succ_cons, List.sum_cons]
        omega
      · simp only [splitMonths, first, if_false, split, List.take_succ_cons, List.sum_cons]
        congr 1
        · omega
        · omega

theorem daysBefore_eq (year : Int) (k : Nat) :
    Date.daysBefore year (k + 1) = ((monthLengths year).take k).sum := by
  rw [Date.daysBefore, Nat.add_sub_cancel, List.sum_eq_foldl]

theorem daysBefore_succ (year : Int) (k : Nat) :
    Date.daysBefore year (k + 2) = Date.daysBefore year (k + 1) + monthLength year (k + 1) := by
  rw [daysBefore_eq, daysBefore_eq, sum_take_succ]
  simp [monthLength]

theorem sum_monthLengths (year : Int) : (monthLengths year).sum = yearLength year := by
  unfold monthLengths yearLength
  split <;> rfl

theorem length_monthLengths (year : Int) : (monthLengths year).length = 12 := rfl

theorem monthLength_pos (year : Int) {k : Nat} (bound : k < 12) :
    0 < monthLength year (k + 1) := by
  have each : ∀ length ∈ monthLengths year, 0 < length := by
    unfold monthLengths
    split <;> simp
  have inside : k < (monthLengths year).length := bound
  simp only [monthLength, Nat.add_one_ne_zero, if_false, Nat.add_sub_cancel,
    List.getD_eq_getElem?_getD, List.getElem?_eq_getElem inside, Option.getD_some]
  exact each _ (List.getElem_mem inside)

/-! ## Months of all years -/

theorem monthSize_pos (index : Int) : 0 < monthSize index :=
  monthLength_pos _ (by omega)

theorem monthStart_succ (index : Int) :
    monthStart (index + 1) = monthStart index + monthSize index := by
  unfold monthStart monthSize
  by_cases december : index % 12 = 11
  · have year : (index + 1) / 12 = index / 12 + 1 := by omega
    have month : (index + 1) % 12 = 0 := by omega
    have all : Date.daysBefore (index / 12) 12 + monthLength (index / 12) 12 =
        yearLength (index / 12) := by
      rw [← daysBefore_succ, daysBefore_eq, ← sum_monthLengths, List.take_of_length_le]
      simp [length_monthLengths]
    have none : Date.daysBefore (index / 12 + 1) 1 = 0 := by
      rw [daysBefore_eq, List.take_zero, List.sum_nil]
    rw [year, month, december, yearStart_succ]
    simp only [Int.toNat_zero, Nat.zero_add, none]
    have twelve : Int.toNat 11 + 1 = 12 := rfl
    rw [twelve]
    omega
  · have year : (index + 1) / 12 = index / 12 := by omega
    have month : ((index + 1) % 12).toNat = (index % 12).toNat + 1 := by omega
    rw [year, month, daysBefore_succ]
    omega

theorem monthStart_add_le (index : Int) (n : Nat) :
    monthStart index ≤ monthStart (index + n) := by
  induction n with
  | zero => simp
  | succ n ih =>
    have next := monthStart_succ (index + n)
    rw [Int.add_assoc] at next
    push_cast
    omega

theorem monthStart_mono {i j : Int} (h : i ≤ j) : monthStart i ≤ monthStart j := by
  obtain ⟨n, rfl⟩ := Int.le.dest h
  exact monthStart_add_le i n

namespace Date

/-- The month of a date, counted through the years. -/
def monthIndex (date : Date) : Int :=
  date.year * 12 + (date.month - 1 : Nat)

theorem exists_monthAndDay (date : Date) :
    ∃ k, k < 12 ∧ date.month = k + 1 ∧ 1 ≤ date.dayOfMonth ∧
      date.dayOfMonth ≤ monthLength date.year (k + 1) ∧
      date.day = yearStart date.year + daysBefore date.year (k + 1) + (date.dayOfMonth - 1 : Nat) := by
  have lower := yearStart_le date.day
  have upper := lt_yearStart_succ date.day
  rw [yearStart_succ, ← sum_monthLengths] at upper
  have year : yearOf date.day = date.year := rfl
  rw [year] at lower upper
  have inside : (date.day - yearStart date.year).toNat < (monthLengths date.year).sum := by omega
  obtain ⟨k, bound, first, last, split⟩ := splitMonths_eq 1 inside
  rw [length_monthLengths] at bound
  rw [sum_take_succ] at last
  have length : monthLength date.year (k + 1) = (monthLengths date.year).getD k 0 := by
    simp [monthLength]
  have both : date.monthAndDay = _ := split
  refine ⟨k, bound, ?_, ?_, ?_, ?_⟩
  · rw [month, both, Nat.add_comm]
  · rw [dayOfMonth, both]
    omega
  · rw [dayOfMonth, both, length]
    omega
  · rw [dayOfMonth, both, daysBefore_eq]
    omega

theorem monthIndex_div (date : Date) : date.monthIndex / 12 = date.year := by
  obtain ⟨k, bound, month, -⟩ := date.exists_monthAndDay
  rw [monthIndex, month]
  omega

theorem monthIndex_mod (date : Date) : (date.monthIndex % 12).toNat + 1 = date.month := by
  obtain ⟨k, bound, month, -⟩ := date.exists_monthAndDay
  rw [monthIndex, month]
  omega

theorem one_le_dayOfMonth (date : Date) : 1 ≤ date.dayOfMonth := by
  obtain ⟨k, -, -, first, -⟩ := date.exists_monthAndDay
  exact first

theorem dayOfMonth_le (date : Date) : date.dayOfMonth ≤ monthSize date.monthIndex := by
  obtain ⟨k, -, month, -, last, -⟩ := date.exists_monthAndDay
  rw [monthSize, monthIndex_div, monthIndex_mod, month]
  exact last

/-- A date by its month and its day in the month. -/
theorem day_eq (date : Date) :
    date.day = monthStart date.monthIndex + (date.dayOfMonth - 1 : Nat) := by
  obtain ⟨k, -, month, -, -, day⟩ := date.exists_monthAndDay
  rw [monthStart, monthIndex_div, monthIndex_mod, month]
  exact day

theorem monthIndex_eq {date : Date} {index : Int} (lower : monthStart index ≤ date.day)
    (upper : date.day < monthStart (index + 1)) : date.monthIndex = index := by
  have day := date.day_eq
  have first := date.one_le_dayOfMonth
  have last := date.dayOfMonth_le
  have next := monthStart_succ date.monthIndex
  rcases Int.lt_trichotomy date.monthIndex index with before | same | after
  · have := monthStart_mono (i := date.monthIndex + 1) (j := index) (by omega)
    omega
  · exact same
  · have := monthStart_mono (i := index + 1) (j := date.monthIndex) (by omega)
    omega

/-! ## The next day -/

/-- The next day is in the same month, or it is the first of the next one. -/
theorem next_cases {date next : Date} (h : next.day = date.day + 1) :
    next.monthIndex = date.monthIndex ∧ next.dayOfMonth = date.dayOfMonth + 1 ∨
      next.monthIndex = date.monthIndex + 1 ∧ next.dayOfMonth = 1 := by
  have day := date.day_eq
  have day' := next.day_eq
  have first := date.one_le_dayOfMonth
  have first' := next.one_le_dayOfMonth
  have size := monthStart_succ date.monthIndex
  by_cases last : date.dayOfMonth < monthSize date.monthIndex
  · have same : next.monthIndex = date.monthIndex := monthIndex_eq (by omega) (by omega)
    rw [same] at day'
    exact .inl ⟨same, by omega⟩
  · have bound := date.dayOfMonth_le
    have size' := monthStart_succ (date.monthIndex + 1)
    have pos := monthSize_pos (date.monthIndex + 1)
    have following : next.monthIndex = date.monthIndex + 1 := monthIndex_eq (by omega) (by omega)
    rw [following] at day'
    exact .inr ⟨following, by omega⟩

theorem first_of_month_iff {date next : Date} (h : next.day = date.day + 1) :
    next.month ≠ date.month ↔ next.dayOfMonth = 1 := by
  have first := date.one_le_dayOfMonth
  have month := date.monthIndex_mod
  have month' := next.monthIndex_mod
  rcases next_cases h with ⟨same, day⟩ | ⟨following, day⟩
  · rw [same] at month'
    omega
  · rw [following] at month'
    omega

theorem first_of_year_iff {date next : Date} (h : next.day = date.day + 1) :
    next.year ≠ date.year ↔ next.month = 1 ∧ next.dayOfMonth = 1 := by
  have first := date.one_le_dayOfMonth
  have year := date.monthIndex_div
  have year' := next.monthIndex_div
  have month' := next.monthIndex_mod
  rcases next_cases h with ⟨same, day⟩ | ⟨following, day⟩
  · rw [same] at year'
    omega
  · rw [following] at year' month'
    omega

theorem day_of_next? {date next : Date} (h : date.next? = some next) :
    next.day = date.day + 1 :=
  addDays?_eq_some_iff.1 h

/-- The last date alone has no next one. -/
theorem next?_eq_none_iff {date : Date} : date.next? = none ↔ date = last := by
  obtain ⟨day, lower, upper⟩ := date
  unfold next? addDays? ofDay?
  constructor
  · intro h
    split at h
    · contradiction
    · rename_i outside
      have same : day = 95745764 := by
        dsimp only at outside
        omega
      subst same
      rfl
  · rintro ⟨⟩
    rfl

end Date

/-! ## New days -/

namespace NewDay

theorem after?_eq_some {date : Date} {day : NewDay} (h : after? date = some day) :
    day.date.day = date.day + 1 ∧ day.newMonth = (day.date.month != date.month) ∧
      day.newYear = (day.date.year != date.year) := by
  obtain ⟨next, found, rfl⟩ := Option.map_eq_some_iff.1 h
  exact ⟨Date.day_of_next? found, rfl, rfl⟩

/-- A month begins with a day exactly if it is the first of a month. -/
theorem newMonth_iff {date : Date} {day : NewDay} (h : after? date = some day) :
    day.newMonth = true ↔ day.date.dayOfMonth = 1 := by
  obtain ⟨next, month, -⟩ := after?_eq_some h
  rw [month, bne_iff_ne]
  exact Date.first_of_month_iff next

/-- A year begins with a day exactly if it is a 1 January. -/
theorem newYear_iff {date : Date} {day : NewDay} (h : after? date = some day) :
    day.newYear = true ↔ day.date.month = 1 ∧ day.date.dayOfMonth = 1 := by
  obtain ⟨next, -, year⟩ := after?_eq_some h
  rw [year, bne_iff_ne]
  exact Date.first_of_year_iff next

end NewDay

end Storyline
