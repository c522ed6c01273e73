import Storyline.Json.Tagged
import Storyline.Node.Json
import Storyline.Text.Quoted

/-!
# Players

What a player owns, and how edits, trades and salaries change it. Sums that leave 64 bits stop at
the limit.

* `saturate`: the integer of 64 bits next to an integer.
-/

namespace Storyline

open Json

/-- The integer of 64 bits next to an integer. -/
def saturate (n : Int) : Int64 :=
  Int64.ofInt (max (-0x8000000000000000) (min n 0x7FFFFFFFFFFFFFFF))

structure Player where
  happiness : Int64
  money : Int64
  salary : Int64
  hasPet : Bool
  inventory : List String
  deriving DecidableEq, Repr

namespace Player

def initial : Player where
  happiness := 50
  money := 1000
  salary := 3000
  hasPet := false
  inventory := []

/-! ## Changes -/

/-- An amount after an edit. -/
def edited (mode : EditMode) (old value : Int64) : Int64 :=
  match mode with
  | .add => saturate (old.toInt + value.toInt)
  | .set => value

/-- The player after an edit. A positive value gives a pet; setting zero takes it. -/
def edit (p : Player) (e : Edit) : Player :=
  match e.resource with
  | .happiness => { p with happiness := edited e.mode p.happiness e.value }
  | .money => { p with money := edited e.mode p.money e.value }
  | .salary => { p with salary := edited e.mode p.salary e.value }
  | .pet =>
    match e.mode with
    | .add => { p with hasPet := 0 < e.value || p.hasPet }
    | .set => { p with hasPet := e.value != 0 }

/-- The player after a change of money. -/
def pay (p : Player) (amount : Int) : Player :=
  { p with money := saturate (p.money.toInt + amount) }

/-- The player after a trade. Only what is there is sold, the earliest piece first. -/
def trade (p : Player) (action : TradeAction) (item : Item) : Player :=
  match action with
  | .buy => { p.pay (-item.price.toInt) with inventory := p.inventory ++ [item.name] }
  | .sell =>
    if item.name ∈ p.inventory then
      { p.pay item.price.toInt with inventory := p.inventory.erase item.name }
    else p
  | .give => { p with inventory := p.inventory ++ [item.name] }

/-- The player after the deduction of a day: the thirtieth part of the salary, rounded towards
zero. -/
def deductDaily (p : Player) : Player :=
  p.pay (-(p.salary.toInt.tdiv 30))

def creditMonthly (p : Player) : Player :=
  p.pay p.salary.toInt

/-! ## As JSON -/

def encode (p : Player) : Value :=
  .object
    [("happiness", .number p.happiness.toInt), ("money", .number p.money.toInt),
      ("salary", .number p.salary.toInt), ("have_pet", .bool p.hasPet),
      ("inventory", texts p.inventory)]

/-- The fields of a player; the inventory may be missing. -/
def shape : Shape Player :=
  Player.mk <$> .required "happiness" .signed64 <*> .required "money" .signed64
    <*> .required "salary" .signed64 <*> .required "have_pet" .boolean
    <*> .defaulted "inventory" (.list .text) []

def decode : Decoder Player := shape.record "PlayerProfile"

/-! ## As a report -/

/-- The lines that list an inventory. -/
def inventoryLines : List String → List String
  | [] => ["    inventory: [],"]
  | items =>
    "    inventory: [" :: items.map (fun i => "        " ++ Text.quoted i ++ ",") ++ ["    ],"]

/-- The lines that show a player at the end of a game. -/
def report (p : Player) : List String :=
  ["PlayerProfile \x7b", s!"    happiness: {p.happiness.toInt},", s!"    money: {p.money.toInt},",
    s!"    salary: {p.salary.toInt},", s!"    have_pet: {p.hasPet},"]
    ++ inventoryLines p.inventory ++ ["\x7d"]

end Player

end Storyline
