/-!
# Dates

A date is a day of the Gregorian calendar, continued in both directions, and is held as its distance
from 1 January of year 0. Only the years from -262143 to 262142 are in the calendar.

* `yearStart_le`, `lt_yearStart_succ`: a day lies in its year.
* `yearStart_succ`: a year has 365 days, a leap year 366.
-/

namespace Storyline

/-! ## Years -/

/-- A year with a 29 February. -/
def isLeap (year : Int) : Bool :=
  year % 4 == 0 && (year % 100 != 0 || year % 400 == 0)

def yearLength (year : Int) : Nat :=
  if isLeap year then 366 else 365

/-- The distance of 1 January of a year from that of year 0. -/
def yearStart (year : Int) : Int :=
  365 * year + (year + 3) / 4 - (year + 99) / 100 + (year + 399) / 400

def yearOf (day : Int) : Int :=
  let year := 400 * day / 146097
  if day < yearStart year then year - 1
  else if yearStart (year + 1) ≤ day then year + 1
  else year

theorem yearStart_succ (year : Int) : yearStart (year + 1) = yearStart year + yearLength year := by
  unfold yearStart yearLength isLeap
  split <;> simp_all <;> omega

theorem yearStart_le (day : Int) : yearStart (yearOf day) ≤ day := by
  unfold yearOf
  simp only
  split
  · unfold yearStart
    omega
  · split
    · assumption
    · unfold yearStart at *
      omega

theorem lt_yearStart_succ (day : Int) : day < yearStart (yearOf day + 1) := by
  unfold yearOf
  simp only
  split
  · rw [Int.sub_add_cancel]
    assumption
  · split
    · unfold yearStart at *
      omega
    · omega

/-! ## Months -/

def monthLengths (year : Int) : List Nat :=
  [31, if isLeap year then 29 else 28, 31, 30, 31, 30, 31, 31, 30, 31, 30, 31]

/-- The number of days of a month, counted from 1; none for other numbers. -/
def monthLength (year : Int) (month : Nat) : Nat :=
  if month = 0 then 0 else (monthLengths year).getD (month - 1) 0

/-- Goes through the lengths of months from the given one on: the month that holds the day with so
many days before it, and that day's number in the month. -/
def splitMonths : Nat → List Nat → Nat → Nat × Nat
  | month, [], before => (month, before + 1)
  | month, length :: lengths, before =>
    if before < length then (month, before + 1)
    else splitMonths (month + 1) lengths (before - length)

/-! ## Dates -/

/-- A day of the calendar, as its distance from 1 January of year 0. -/
structure Date where
  day : Int
  first_le : -95745764 ≤ day := by omega
  le_last : day ≤ 95745764 := by omega
  deriving DecidableEq, Repr

namespace Date

instance : LE Date := ⟨fun a b => a.day ≤ b.day⟩
instance : LT Date := ⟨fun a b => a.day < b.day⟩
instance : DecidableLE Date := fun a b => inferInstanceAs (Decidable (a.day ≤ b.day))
instance : DecidableLT Date := fun a b => inferInstanceAs (Decidable (a.day < b.day))

/-- The last day of the calendar, 31 December of year 262142. -/
def last : Date := ⟨95745764, by omega, by omega⟩

instance : Inhabited Date := ⟨⟨0, by omega, by omega⟩⟩

/-- The date at a distance from 1 January of year 0, if the calendar has it. -/
def ofDay? (day : Int) : Option Date :=
  if h : -95745764 ≤ day ∧ day ≤ 95745764 then some ⟨day, h.1, h.2⟩ else none

/-- The date so many days later, if the calendar has it. -/
def addDays? (date : Date) (days : Int) : Option Date :=
  ofDay? (date.day + days)

def next? (date : Date) : Option Date :=
  date.addDays? 1

def year (date : Date) : Int :=
  yearOf date.day

/-- The month of a date, from 1 to 12, and its day in the month, from 1. -/
def monthAndDay (date : Date) : Nat × Nat :=
  splitMonths 1 (monthLengths date.year) (date.day - yearStart date.year).toNat

/-- The month of a date, from 1 to 12. -/
def month (date : Date) : Nat :=
  date.monthAndDay.1

/-- The day of a date in its month, from 1. -/
def dayOfMonth (date : Date) : Nat :=
  date.monthAndDay.2

/-- The number of days of a year before a month, counted from 1. -/
def daysBefore (year : Int) (month : Nat) : Nat :=
  ((monthLengths year).take (month - 1)).foldl (· + ·) 0

/-- The date of the given year, month and day in the month, if the calendar has it. -/
def ofCivil? (year : Int) (month day : Nat) : Option Date :=
  if 1 ≤ month ∧ month ≤ 12 ∧ 1 ≤ day ∧ day ≤ monthLength year month then
    ofDay? (yearStart year + daysBefore year month + (day - 1 : Nat))
  else none

theorem ofDay?_eq_some_iff {day : Int} {date : Date} : ofDay? day = some date ↔ date.day = day := by
  unfold ofDay?
  split
  · next h =>
    constructor
    · rintro ⟨⟩
      rfl
    · rintro rfl
      rfl
  · next h =>
    simp only [reduceCtorEq, false_iff]
    rintro rfl
    exact h ⟨date.first_le, date.le_last⟩

theorem addDays?_eq_some_iff {date date' : Date} {days : Int} :
    date.addDays? days = some date' ↔ date'.day = date.day + days :=
  ofDay?_eq_some_iff

end Date

end Storyline
