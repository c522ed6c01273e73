import Storyline.Calendar.Date

/-!
# New days

What begins with a day: its month, its year, or neither.
-/

namespace Storyline

structure NewDay where
  date : Date
  /-- Whether a month begins with it. -/
  newMonth : Bool
  /-- Whether a year begins with it. -/
  newYear : Bool
  deriving DecidableEq, Repr

/-- The day that begins when the given one ends, if the calendar has it. -/
def NewDay.after? (date : Date) : Option NewDay :=
  date.next?.map fun next => ⟨next, next.month != date.month, next.year != date.year⟩

end Storyline
