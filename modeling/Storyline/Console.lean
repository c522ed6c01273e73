import Storyline.Calendar.NewDay
import Storyline.Calendar.Written
import Storyline.Host
import Storyline.Player

/-!
# Consoles

A host that prints messages, keeps a calendar and owns a player. A time skip moves the day ahead at
once; the days that were jumped over are announced later, one by one.

* `Console.perform`: what a call does.
* `Console.tomorrow?`: the clock moves on by a day.
* `Console.nextPending?`: the next day to announce.
-/

namespace Storyline

namespace Console

/-! ## What is printed -/

/-- Something that a console prints. -/
inductive Entry where
  | message (dialog : Dialog) (date : Date)
  | advance (days : Int) (date : Date)
  | gameOver (money : Int64)
  deriving DecidableEq, Repr

def messageLines (d : Dialog) (date : Date) : List String :=
  let image := d.image.elim [] fun image => ["  <" ++ image ++ ">"]
  let text :=
    match d.speaker with
    | some speaker => "  " ++ speaker ++ ": " ++ d.text
    | none => "  " ++ d.text
  let choices :=
    if d.choices.isEmpty then ["    (press enter)"]
    else d.choices.zipIdx.map fun (choice, i) => s!"    {i}) {choice}"
  "" :: s!"[{d.category}] {date.text}" :: image ++ text :: choices

/-- The lines of what is printed. -/
def Entry.lines : Entry → List String
  | .message dialog date => messageLines dialog date
  | .advance days date => [s!"  ... {days} days later ({date.text})"]
  | .gameOver money => ["", s!"Game over. Final money: {money.toInt}"]

end Console

/-! ## The state -/

/-- A terminal in the place of message box, clock and player. -/
structure Console where
  player : Player
  today : Date
  /-- The last day that has been announced. -/
  announced : Date
  clockRunning : Bool
  paused : Bool
  /-- Whether a time skip has been made and its end not yet been taken note of. -/
  advancing : Bool
  gameOver : Bool
  /-- Whether it was asked for a day that the calendar does not have. -/
  offCalendar : Bool
  printed : Array Console.Entry
  deriving Repr

namespace Console

def new (today : Date) (player : Player) : Console where
  player := player
  today := today
  announced := today
  clockRunning := false
  paused := false
  advancing := false
  gameOver := false
  offCalendar := false
  printed := #[]

def print (c : Console) (entry : Entry) : Console :=
  { c with printed := c.printed.push entry }

def advance (c : Console) (days : Int) : Console :=
  match c.today.addDays? days with
  | some date => { c with today := date, advancing := true }.print (.advance days date)
  | none => { c with offCalendar := true }

def perform (call : Call) (c : Console) : Console :=
  match call with
  | .display dialog => c.print (.message dialog c.today)
  | .hide => c
  | .advance days => c.advance days
  | .pause paused => { c with paused := paused }
  | .reset => { c with clockRunning := false }
  | .startClock => { c with clockRunning := true }
  | .edit edits => { c with player := edits.foldl Player.edit c.player }
  | .trade action item => { c with player := c.player.trade action item }
  | .deductDaily => { c with player := c.player.deductDaily }
  | .creditMonthly => { c with player := c.player.creditMonthly }
  | .gameOver => { c with gameOver := true }.print (.gameOver c.player.money)

instance : Host Console where
  today := Console.today
  perform := Console.perform

/-! ## The clock -/

/-- Whether days pass on their own. -/
def ticking (c : Console) : Bool :=
  c.clockRunning && !c.paused && !c.gameOver

/-- The console on the next day, if the calendar has it. -/
def tomorrow? (c : Console) : Option Console :=
  c.today.next?.map fun date => { c with today := date }

/-- Takes note of the end of a time skip, and says whether there was one. -/
def takeArrival (c : Console) : Bool × Console :=
  (c.advancing, { c with advancing := false })

/-- The first day up to today that has not been announced, which then counts as announced. -/
def nextPending? (c : Console) : Option (NewDay × Console) :=
  if c.announced < c.today then
    (NewDay.after? c.announced).map fun day => (day, { c with announced := day.date })
  else none

end Console

end Storyline
