import Storyline.Node

/-!
# Hosts

A host shows messages, keeps the calendar and runs the economy. The library asks it for the day and
otherwise only makes calls, whose results it never sees.

* `Recorder`: a host that writes its calls down and moves its day at once.
-/

namespace Storyline

/-- Everything that a message box needs to show one message. -/
structure Dialog where
  category : Category
  image : Option String
  text : String
  choices : List String
  speaker : Option String
  deriving DecidableEq, Repr

/-- What a host is asked to do. -/
inductive Call where
  -- the message box
  | display (dialog : Dialog)
  | hide
  -- the calendar
  | advance (days : Int)
  | pause (paused : Bool)
  | reset
  | startClock
  -- the economy
  | edit (edits : List Edit)
  | trade (action : TradeAction) (item : Item)
  | deductDaily
  | creditMonthly
  | gameOver
  deriving DecidableEq, Repr

class Host (H : Type) where
  today : H → Date
  perform : Call → H → H

/-- A host that writes its calls down. -/
structure Recorder where
  today : Date
  calls : Array Call := #[]
  /-- Whether it was asked for a day that the calendar does not have. -/
  offCalendar : Bool := false
  deriving Repr

def Recorder.perform (call : Call) (r : Recorder) : Recorder :=
  let r := { r with calls := r.calls.push call }
  match call with
  | .advance days =>
    match r.today.addDays? days with
    | some date => { r with today := date }
    | none => { r with offCalendar := true }
  | _ => r

instance : Host Recorder where
  today := Recorder.today
  perform := Recorder.perform

end Storyline
