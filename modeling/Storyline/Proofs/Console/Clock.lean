import Storyline.Console
import Storyline.Proofs.Calendar.Ahead
import Storyline.Proofs.Calendar.Span
import Storyline.Proofs.Interpreter.HostSteps

/-!
# The clock of a console

Today moves on by days and by time skips, and the days that were announced follow it one by one.

* `Console.Announced`: which days have been announced so far.
* `Console.shiftAll?_announced`: no day is left out or announced twice.
* `Console.announced_drain`: so many days are pending as today is ahead.
-/

namespace Storyline.Console

/-! ## Moving on -/

/-- Today may have moved on, and nothing has been announced. -/
structure Onward (c c' : Console) : Prop where
  announced : c'.announced = c.announced
  today : c.today ≤ c'.today
  offCalendar : c'.offCalendar = c.offCalendar

theorem onward_refl (c : Console) : c.Onward c := ⟨rfl, Int.le_refl _, rfl⟩

/-- A time skip leads to the day so many units ahead, and nowhere if the calendar ends before. -/
theorem advance_skipDays (c : Console) (unit : Period) (amount : UInt32) :
    let date := (unit.after? amount c.today).getD c.today
    c.advance (Graph.skipDays unit amount c.today) =
      { c with today := date, advancing := true }.print (.advance (date.day - c.today.day) date) := by
  unfold advance Graph.skipDays
  cases ahead : unit.after? amount c.today with
  | some date =>
    have found : c.today.addDays? (date.day - c.today.day) = some date :=
      Date.addDays?_eq_some_iff.2 (by omega)
    simp only [found, Option.getD_some]
  | none =>
    have found : c.today.addDays? 0 = some c.today :=
      Date.addDays?_eq_some_iff.2 (by omega)
    simp only [found, Option.getD_none, Int.sub_self]

theorem onward_skip (c : Console) (unit : Period) (amount : UInt32) :
    c.Onward (c.advance (Graph.skipDays unit amount c.today)) := by
  rw [c.advance_skipDays unit amount]
  refine ⟨rfl, ?_, rfl⟩
  show c.today ≤ (unit.after? amount c.today).getD c.today
  cases ahead : unit.after? amount c.today with
  | some date => exact Period.le_after? ahead
  | none => exact Int.le_refl _

theorem onward_tomorrow {c c' : Console} (h : c.tomorrow? = some c') : c.Onward c' := by
  obtain ⟨date, next, rfl⟩ := Option.map_eq_some_iff.1 h
  have day := Date.day_of_next? next
  exact ⟨rfl, show c.today.day ≤ date.day by omega, rfl⟩

theorem onward_follows : Host.Follows Onward where
  refl := onward_refl
  trans h h' :=
    ⟨h'.announced.trans h.announced, Int.le_trans h.today h'.today,
      h'.offCalendar.trans h.offCalendar⟩
  call {call} c other := by
    cases call with
    | advance days => exact absurd rfl (other days)
    | _ => exact ⟨rfl, Int.le_refl _, rfl⟩
  skip unit amount c := c.onward_skip unit amount

theorem today_steady : Host.Steady fun c c' : Console => c'.today = c.today where
  refl c := rfl
  trans h h' := h'.trans h
  call {call} c other := by
    cases call with
    | advance days => exact absurd rfl (other days)
    | _ => rfl

/-! ## Announcing -/

theorem nextPending?_eq_some {c c' : Console} {day : NewDay}
    (h : c.nextPending? = some (day, c')) :
    c.announced < c.today ∧ NewDay.after? c.announced = some day ∧
      c' = { c with announced := day.date } := by
  unfold nextPending? at h
  split at h
  · rename_i behind
    obtain ⟨day', found, pair⟩ := Option.map_eq_some_iff.1 h
    obtain ⟨rfl, rfl⟩ := Prod.mk.inj pair
    exact ⟨behind, found, rfl⟩
  · contradiction

theorem nextPending?_eq_none_iff {c : Console} : c.nextPending? = none ↔ c.today ≤ c.announced := by
  unfold nextPending?
  split
  · rename_i behind
    have behind : c.announced.day < c.today.day := behind
    have last := c.today.le_last
    have first := c.announced.first_le
    have found : c.announced.next? = some ⟨c.announced.day + 1, by omega, by omega⟩ :=
      Date.addDays?_eq_some_iff.2 rfl
    simp only [NewDay.after?, found, Option.map_some, reduceCtorEq, false_iff]
    exact Int.not_le.2 behind
  · rename_i upToDate
    exact ⟨fun _ => Int.not_lt.1 upToDate, fun _ => rfl⟩

/-- The days from the start on that have been announced: all up to the last of them, in order, each
with what begins with it. -/
structure Announced (start : Date) (days : List NewDay) (c : Console) : Prop where
  inside : c.offCalendar = false
  since : start ≤ c.announced
  upTo : c.announced ≤ c.today
  dates : days.map NewDay.date = start.span c.announced
  month : ∀ day ∈ days, day.newMonth = true ↔ day.date.dayOfMonth = 1
  year : ∀ day ∈ days, day.newYear = true ↔ day.date.month = 1 ∧ day.date.dayOfMonth = 1

theorem announced_new (start : Date) (player : Player) : (new start player).Announced start [] where
  inside := rfl
  since := Int.le_refl _
  upTo := Int.le_refl _
  dates := (Date.span_self start).symm
  month := fun _ mem => absurd mem List.not_mem_nil
  year := fun _ mem => absurd mem List.not_mem_nil

namespace Announced

variable {start : Date} {days : List NewDay} {c c' : Console}

theorem onward (h : c.Announced start days) (next : c.Onward c') : c'.Announced start days where
  inside := next.offCalendar.trans h.inside
  since := by
    rw [next.announced]
    exact h.since
  upTo := by
    rw [next.announced]
    exact Int.le_trans h.upTo next.today
  dates := by rw [next.announced, h.dates]
  month := h.month
  year := h.year

theorem announce (h : c.Announced start days) {day : NewDay}
    (pending : c.nextPending? = some (day, c')) : c'.Announced start (days ++ [day]) := by
  obtain ⟨behind, found, rfl⟩ := nextPending?_eq_some pending
  obtain ⟨next, -, -⟩ := NewDay.after?_eq_some found
  have since : start.day ≤ c.announced.day := h.since
  have behind : c.announced.day < c.today.day := behind
  constructor
  · exact h.inside
  · show start.day ≤ day.date.day
    omega
  · show day.date.day ≤ c.today.day
    omega
  · rw [List.map_append, h.dates]
    exact (Date.span_succ h.since next).symm
  · intro other mem
    rcases List.mem_append.1 mem with old | new
    · exact h.month other old
    · obtain rfl := List.mem_singleton.1 new
      exact NewDay.newMonth_iff found
  · intro other mem
    rcases List.mem_append.1 mem with old | new
    · exact h.year other old
    · obtain rfl := List.mem_singleton.1 new
      exact NewDay.newYear_iff found

theorem length (h : c.Announced start days) :
    days.length = (c.announced.day - start.day).toNat := by
  rw [← Date.length_span h.since, ← h.dates, List.length_map]

/-- The announced days are numbered from the day after the start, without a gap. -/
theorem numbers (h : c.Announced start days) :
    days.map (fun day => day.date.day) =
      (List.range days.length).map fun n : Nat => start.day + 1 + n := by
  rw [h.length, ← Date.map_day_span h.since, ← h.dates, List.map_map]
  rfl

end Announced

/-! ## Shifts -/

/-- What moves the calendar of a console or announces one of its days. -/
inductive Shift where
  | tomorrow
  | skip (unit : Period) (amount : UInt32)
  | announce
  deriving DecidableEq, Repr

/-- The day that is announced, if any, and the console after it. There is none if the calendar does
not have the next day. -/
def shift? (c : Console) : Shift → Option (List NewDay × Console)
  | .tomorrow => c.tomorrow?.map ([], ·)
  | .skip unit amount => some ([], c.advance (Graph.skipDays unit amount c.today))
  | .announce => some (c.nextPending?.elim ([], c) fun (day, c) => ([day], c))

def shiftAll? : Console → List Shift → Option (List NewDay × Console)
  | c, [] => some ([], c)
  | c, shift :: shifts => do
    let (days, c) ← c.shift? shift
    let (later, c) ← c.shiftAll? shifts
    return (days ++ later, c)

theorem Announced.shift {start : Date} {days new : List NewDay} {c c' : Console}
    (h : c.Announced start days) {shift : Shift} (moved : c.shift? shift = some (new, c')) :
    c'.Announced start (days ++ new) := by
  cases shift with
  | tomorrow =>
    obtain ⟨next, found, pair⟩ := Option.map_eq_some_iff.1 moved
    obtain ⟨rfl, rfl⟩ := Prod.mk.inj pair
    rw [List.append_nil]
    exact h.onward (onward_tomorrow found)
  | skip unit amount =>
    obtain ⟨rfl, rfl⟩ := Prod.mk.inj (Option.some.inj moved)
    rw [List.append_nil]
    exact h.onward (c.onward_skip unit amount)
  | announce =>
    cases pending : c.nextPending? with
    | none =>
      rw [shift?, pending] at moved
      obtain ⟨rfl, rfl⟩ := Prod.mk.inj (Option.some.inj moved)
      rwa [List.append_nil]
    | some next =>
      rw [shift?, pending] at moved
      obtain ⟨rfl, rfl⟩ := Prod.mk.inj (Option.some.inj moved)
      exact h.announce pending

theorem shiftAll?_announced {start : Date} {days new : List NewDay} {c c' : Console}
    (h : c.Announced start days) {shifts : List Shift}
    (moved : c.shiftAll? shifts = some (new, c')) : c'.Announced start (days ++ new) := by
  induction shifts generalizing c days new with
  | nil =>
    obtain ⟨rfl, rfl⟩ := Prod.mk.inj (Option.some.inj moved)
    rwa [List.append_nil]
  | cons shift shifts ih =>
    obtain ⟨⟨first, next⟩, now, rest⟩ := Option.bind_eq_some_iff.1 moved
    obtain ⟨⟨later, last⟩, then', pair⟩ := Option.bind_eq_some_iff.1 rest
    obtain ⟨rfl, rfl⟩ := Prod.mk.inj (Option.some.inj pair)
    rw [← List.append_assoc]
    exact ih (h.shift now) then'

/-! ## All pending days -/

/-- Announces days until none is pending. -/
def drain (c : Console) : List NewDay × Console :=
  match _ : c.nextPending? with
  | none => ([], c)
  | some (day, next) => (day :: next.drain.1, next.drain.2)
termination_by (c.today.day - c.announced.day).toNat
decreasing_by
  all_goals
    rename_i pending
    obtain ⟨behind, found, rfl⟩ := nextPending?_eq_some pending
    obtain ⟨step, -, -⟩ := NewDay.after?_eq_some found
    have behind : c.announced.day < c.today.day := behind
    show (c.today.day - day.date.day).toNat < _
    omega

theorem drain_of_none {c : Console} (h : c.nextPending? = none) : c.drain = ([], c) := by
  unfold drain
  split
  · rfl
  · rename_i pending
    rw [h] at pending
    contradiction

theorem drain_of_some {c next : Console} {day : NewDay} (h : c.nextPending? = some (day, next)) :
    c.drain = (day :: next.drain.1, next.drain.2) := by
  conv => lhs; unfold drain
  split
  · rename_i none
    rw [h] at none
    contradiction
  · rename_i pending
    obtain ⟨rfl, rfl⟩ := Prod.mk.inj (Option.some.inj (h.symm.trans pending))
    rfl

/-- So many days are pending as today is ahead, and after them it has been announced. -/
theorem announced_drain {start : Date} {days : List NewDay} {c : Console}
    (h : c.Announced start days) :
    c.drain.2.Announced start (days ++ c.drain.1) ∧ c.drain.2.nextPending? = none ∧
      c.drain.1.length = (c.today.day - c.announced.day).toNat := by
  induction ahead : (c.today.day - c.announced.day).toNat generalizing c days with
  | zero =>
    have none : c.nextPending? = none := by
      rw [nextPending?_eq_none_iff]
      show c.today.day ≤ c.announced.day
      omega
    rw [drain_of_none none]
    exact ⟨by rwa [List.append_nil], none, rfl⟩
  | succ n ih =>
    cases pending : c.nextPending? with
    | none =>
      rw [nextPending?_eq_none_iff] at pending
      have upTo : c.today.day ≤ c.announced.day := pending
      omega
    | some next =>
      obtain ⟨day, next⟩ := next
      rw [drain_of_some pending]
      have later := h.announce pending
      obtain ⟨behind, found, rfl⟩ := nextPending?_eq_some pending
      obtain ⟨step, -, -⟩ := NewDay.after?_eq_some found
      have left : (c.today.day - day.date.day).toNat = n := by omega
      obtain ⟨announced, none, length⟩ := ih later left
      rw [List.append_assoc] at announced
      exact ⟨announced, none, congrArg Nat.succ length⟩

end Storyline.Console
