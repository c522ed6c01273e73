import Storyline.Calendar.Date

/-!
# Periods

The units in which scenarios count time ahead. A month keeps the day in the month as far as the
target month has it.

* `Period.after?`: the date after so many units.
-/

namespace Storyline

inductive Period where
  | day
  | week
  | month
  deriving DecidableEq, Repr

namespace Period

def label : Period → String
  | .day => "Day"
  | .week => "Week"
  | .month => "Month"

/-- The date so many months later. The day is that of the given date, or the last one of a shorter
month. -/
def addMonths? (date : Date) (months : Nat) : Option Date :=
  let index := date.year * 12 + (date.month - 1 : Nat) + months
  let year := index / 12
  let month := (index % 12).toNat + 1
  Date.ofCivil? year month (min date.dayOfMonth (monthLength year month))

/-- The date after so many units, if the calendar has it. -/
def after? (unit : Period) (amount : UInt32) (date : Date) : Option Date :=
  match unit with
  | .day => date.addDays? amount.toNat
  | .week => date.addDays? (7 * amount.toNat)
  | .month => addMonths? date amount.toNat

end Period

end Storyline
