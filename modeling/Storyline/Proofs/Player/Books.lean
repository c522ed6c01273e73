import Storyline.Proofs.Player

/-!
# The books of a console

Trades, edits and salaries are booked one after the other. Pieces of a name come and go one by one,
and money is the exact sum as far as 64 bits go.

* `Booking`: one line in the books of a player.
* `Player.count_bookAll`, `Player.filter_bookAll`: the inventory after some bookings.
* `Player.money_book`: the money after a booking.
* `Player.Agrees.edits`: what an amount depends on in a list of edits.
* `Console.books_kept`: the books after any calls.
-/

namespace Storyline

theorem toInt_saturate (n : Int) :
    (saturate n).toInt = max Int64.minValue.toInt (min n Int64.maxValue.toInt) := by
  rw [Int64.toInt_minValue, Int64.toInt_maxValue]
  exact Int64.toInt_ofInt_of_le (by omega) (by omega)

/-! ## Bookings -/

/-- One line in the books of a player. -/
inductive Booking where
  | trade (action : TradeAction) (item : Item)
  | edit (e : Edit)
  | deductDaily
  | creditMonthly
  deriving DecidableEq, Repr

/-- The lines that a call makes. -/
def Call.bookings : Call → List Booking
  | .edit edits => edits.map .edit
  | .trade action item => [.trade action item]
  | .deductDaily => [.deductDaily]
  | .creditMonthly => [.creditMonthly]
  | _ => []

namespace Booking

/-- A piece of the name comes in. -/
def brings (name : String) : Booking → Bool
  | .trade .buy item | .trade .give item => item.name == name
  | _ => false

/-- A piece of the name is to go out. -/
def sells (name : String) : Booking → Bool
  | .trade .sell item => item.name == name
  | _ => false

end Booking

namespace Player

def book (p : Player) : Booking → Player
  | .trade action item => p.trade action item
  | .edit e => p.edit e
  | .deductDaily => p.deductDaily
  | .creditMonthly => p.creditMonthly

def bookAll (p : Player) (bs : List Booking) : Player :=
  bs.foldl book p

theorem bookAll_cons (p : Player) (b : Booking) (bs : List Booking) :
    p.bookAll (b :: bs) = (p.book b).bookAll bs := rfl

theorem perform_eq_bookAll (p : Player) (call : Call) :
    p.perform call = p.bookAll call.bookings := by
  cases call with
  | edit edits => exact (List.foldl_map (f := Booking.edit) (g := book)).symm
  | _ => rfl

/-! ## Inventory -/

/-- How many sales of a name find a piece. -/
def sales (name : String) : Player → List Booking → Nat
  | _, [] => 0
  | p, b :: bs =>
    (if b.sells name ∧ 0 < p.inventory.count name then 1 else 0) + (p.book b).sales name bs

theorem inventory_edit (p : Player) (e : Edit) : (p.edit e).inventory = p.inventory := by
  obtain ⟨resource, mode, value⟩ := e
  cases resource <;> cases mode <;> rfl

/-- A sale takes the first piece, if there is one, and otherwise changes nothing. -/
theorem sell_cases (p : Player) (item : Item) :
    (0 < p.inventory.count item.name ∧ ∃ before after,
      p.inventory = before ++ item.name :: after ∧ item.name ∉ before ∧
        p.trade .sell item = { p.pay item.price.toInt with inventory := before ++ after }) ∨
      p.inventory.count item.name = 0 ∧ p.trade .sell item = p := by
  by_cases there : item.name ∈ p.inventory
  · obtain ⟨before, after, first, split, rest⟩ := List.exists_erase_eq there
    refine .inl ⟨List.count_pos_iff.2 there, before, after, split, first, ?_⟩
    rw [trade, if_pos there, rest]
  · refine .inr ⟨List.count_eq_zero.2 there, ?_⟩
    rw [trade, if_neg there]

theorem count_book (name : String) (p : Player) (b : Booking) :
    (p.book b).inventory.count name +
        (if b.sells name ∧ 0 < p.inventory.count name then 1 else 0) =
      p.inventory.count name + if b.brings name then 1 else 0 := by
  cases b with
  | trade action item =>
    cases action with
    | buy => simp [book, trade, Booking.sells, Booking.brings, List.count_singleton]
    | sell =>
      rcases p.sell_cases item with ⟨there, before, after, split, -, sold⟩ | ⟨none, same⟩
      · have pieces : p.inventory.count name =
            (before ++ after).count name + if item.name == name then 1 else 0 := by
          rw [split, List.perm_middle.count_eq, List.count_cons]
        rw [book, sold]
        by_cases own : item.name = name
        · subst own
          simp [Booking.sells, Booking.brings, pieces]
        · simp [Booking.sells, Booking.brings, own, pieces]
      · rw [book, same]
        by_cases own : item.name = name
        · subst own
          simp [Booking.brings, none]
        · simp [Booking.sells, Booking.brings, own]
    | give => simp [book, trade, Booking.sells, Booking.brings, List.count_singleton]
  | edit e => simp [book, inventory_edit, Booking.sells, Booking.brings]
  | deductDaily => rfl
  | creditMonthly => rfl

/-- What is there of a name is what was there and what came in, without what went out. -/
theorem count_bookAll (name : String) (p : Player) (bs : List Booking) :
    (p.bookAll bs).inventory.count name + p.sales name bs =
      p.inventory.count name + bs.countP (·.brings name) := by
  induction bs generalizing p with
  | nil => rfl
  | cons b bs ih =>
    have first := p.count_book name b
    have others := ih (p.book b)
    rw [bookAll_cons, sales, List.countP_cons]
    omega

theorem filter_book {keep : String → Bool} {b : Booking}
    (others : ∀ action item, b = .trade action item → keep item.name = false) (p : Player) :
    (p.book b).inventory.filter keep = p.inventory.filter keep := by
  cases b with
  | trade action item =>
    have other : keep item.name = false := others action item rfl
    cases action with
    | buy => simp [book, trade, other]
    | sell =>
      rcases p.sell_cases item with ⟨-, before, after, split, -, sold⟩ | ⟨-, same⟩
      · rw [book, sold, split]
        simp [other]
      · rw [book, same]
    | give => simp [book, trade, other]
  | edit e => rw [book, inventory_edit]
  | deductDaily => rfl
  | creditMonthly => rfl

/-- Names that are not traded keep their order. -/
theorem filter_bookAll {keep : String → Bool} {bs : List Booking}
    (others : ∀ action item, .trade action item ∈ bs → keep item.name = false) (p : Player) :
    (p.bookAll bs).inventory.filter keep = p.inventory.filter keep := by
  induction bs generalizing p with
  | nil => rfl
  | cons b bs ih =>
    have later := ih (fun action item mem => others action item (List.mem_cons_of_mem b mem))
    rw [bookAll_cons, later]
    apply filter_book
    rintro action item rfl
    exact others action item List.mem_cons_self

/-! ## Money -/

/-- The money after a booking, if it had no limits. -/
def balance (p : Player) : Booking → Int
  | .trade .buy item => p.money.toInt - item.price.toInt
  | .trade .sell item =>
    if 0 < p.inventory.count item.name then p.money.toInt + item.price.toInt else p.money.toInt
  | .trade .give _ => p.money.toInt
  | .edit ⟨.money, .add, value⟩ => p.money.toInt + value.toInt
  | .edit ⟨.money, .set, value⟩ => value.toInt
  | .edit _ => p.money.toInt
  | .deductDaily => p.money.toInt - p.salary.toInt.tdiv 30
  | .creditMonthly => p.money.toInt + p.salary.toInt

theorem money_pay (p : Player) (amount : Int) :
    (p.pay amount).money.toInt =
      max Int64.minValue.toInt (min (p.money.toInt + amount) Int64.maxValue.toInt) :=
  toInt_saturate _

theorem toInt_limited (n : Int64) :
    n.toInt = max Int64.minValue.toInt (min n.toInt Int64.maxValue.toInt) := by
  rw [Int.min_eq_left n.toInt_le, Int.max_eq_right n.minValue_le_toInt]

theorem money_book (p : Player) (b : Booking) :
    (p.book b).money.toInt =
      max Int64.minValue.toInt (min (p.balance b) Int64.maxValue.toInt) := by
  cases b with
  | trade action item =>
    cases action with
    | buy => exact p.money_pay (-item.price.toInt)
    | sell =>
      rcases p.sell_cases item with ⟨there, before, after, -, -, sold⟩ | ⟨none, same⟩
      · rw [book, sold, balance, if_pos there]
        exact p.money_pay item.price.toInt
      · rw [book, same, balance, none]
        exact toInt_limited p.money
    | give => exact toInt_limited p.money
  | edit e =>
    obtain ⟨resource, mode, value⟩ := e
    cases resource with
    | money =>
      cases mode with
      | add => exact toInt_saturate _
      | set => exact toInt_limited value
    | pet => cases mode <;> exact toInt_limited p.money
    | _ => exact toInt_limited p.money
  | deductDaily => exact p.money_pay (-(p.salary.toInt.tdiv 30))
  | creditMonthly => exact p.money_pay p.salary.toInt

/-- Who buys a piece and sells it again has the pieces from before, and the money from before unless
the purchase came to a limit. -/
theorem buy_sell (p : Player) (item : Item) :
    let q := p.bookAll [.trade .buy item, .trade .sell item]
    q.inventory.Perm p.inventory ∧
      (q.money = p.money ↔ Int64.minValue.toInt ≤ p.balance (.trade .buy item) ∧
        p.balance (.trade .buy item) ≤ Int64.maxValue.toInt) := by
  intro q
  let bought := p.book (.trade .buy item)
  have inventory : bought.inventory = p.inventory ++ [item.name] := rfl
  have there : 0 < bought.inventory.count item.name := by simp [inventory]
  constructor
  · rcases bought.sell_cases item with ⟨-, before, after, split, -, sold⟩ | ⟨none, -⟩
    · have left : q.inventory = before ++ after := congrArg Player.inventory sold
      have pieces : (item.name :: (before ++ after)).Perm (item.name :: p.inventory) := by
        have all : (before ++ item.name :: after).Perm (item.name :: (before ++ after)) :=
          List.perm_middle
        rw [← split, inventory] at all
        exact all.symm.trans (List.perm_append_singleton ..)
      rw [left]
      exact pieces.cons_inv
    · omega
  · have paid : bought.money.toInt = _ := p.money_book (.trade .buy item)
    have regained : q.money.toInt = _ := bought.money_book (.trade .sell item)
    have gain : bought.balance (.trade .sell item) = bought.money.toInt + item.price.toInt :=
      if_pos there
    have cost : p.balance (.trade .buy item) = p.money.toInt - item.price.toInt := rfl
    have money := p.money.toInt_le
    have money' := p.money.minValue_le_toInt
    have price := item.price.toInt_le
    have price' := item.price.minValue_le_toInt
    rw [Int64.toInt_minValue, Int64.toInt_maxValue] at *
    rw [← Int64.toInt_inj]
    omega

/-! ## Edits -/

/-- Two players have the same of a resource. -/
def Agrees (r : Resource) (p q : Player) : Prop :=
  match r with
  | .happiness => p.happiness = q.happiness
  | .money => p.money = q.money
  | .salary => p.salary = q.salary
  | .pet => p.hasPet = q.hasPet

variable {r : Resource} {p q s : Player}

theorem Agrees.refl (r : Resource) (p : Player) : Agrees r p p := by
  cases r <;> rfl

theorem Agrees.symm (h : Agrees r p q) : Agrees r q p := by
  cases r <;> exact Eq.symm h

theorem Agrees.trans (h : Agrees r p q) (h' : Agrees r q s) : Agrees r p s := by
  cases r <;> exact Eq.trans h h'

theorem agrees_edit_of_ne {e : Edit} (other : e.resource ≠ r) (p : Player) :
    Agrees r (p.edit e) p := by
  obtain ⟨resource, mode, value⟩ := e
  cases resource <;> cases r <;> first | exact absurd rfl other | (cases mode <;> rfl)

theorem Agrees.edit (h : Agrees r p q) (e : Edit) : Agrees r (p.edit e) (q.edit e) := by
  by_cases own : e.resource = r
  · obtain ⟨resource, mode, value⟩ := e
    obtain rfl : resource = r := own
    cases resource with
    | pet =>
      cases mode with
      | add => exact congrArg (0 < value || ·) h
      | set => rfl
    | _ => exact congrArg (edited mode · value) h
  · exact ((agrees_edit_of_ne own p).trans h).trans (agrees_edit_of_ne own q).symm

/-- What is there of a resource after some edits depends on the edits of that resource alone. -/
theorem Agrees.edits (h : Agrees r p q) (edits : List Edit) :
    Agrees r (edits.foldl Player.edit p)
      ((edits.filter (·.resource = r)).foldl Player.edit q) := by
  induction edits generalizing p q with
  | nil => exact h
  | cons e edits ih =>
    rw [List.foldl_cons, List.filter_cons]
    split
    · exact ih (h.edit e)
    · rename_i other
      exact ih ((agrees_edit_of_ne (by simpa using other) p).trans h)

theorem inventory_edits (p : Player) (edits : List Edit) :
    (edits.foldl edit p).inventory = p.inventory := by
  induction edits generalizing p with
  | nil => rfl
  | cons e edits ih => rw [List.foldl_cons, ih, inventory_edit]

theorem eq_of_agrees (all : ∀ r, Agrees r p q) (inventory : p.inventory = q.inventory) : p = q := by
  obtain ⟨happiness, money, salary, hasPet, pieces⟩ := p
  obtain rfl : happiness = _ := all .happiness
  obtain rfl : money = _ := all .money
  obtain rfl : salary = _ := all .salary
  obtain rfl : hasPet = _ := all .pet
  obtain rfl : pieces = _ := inventory
  rfl

theorem edits_eq {edits edits' : List Edit}
    (same : ∀ r, edits.filter (·.resource = r) = edits'.filter (·.resource = r)) (p : Player) :
    edits.foldl edit p = edits'.foldl edit p := by
  apply eq_of_agrees
  · intro r
    have first := (Agrees.refl r p).edits edits
    have second := (Agrees.refl r p).edits edits'
    rw [same r] at first
    exact first.trans second.symm
  · rw [inventory_edits, inventory_edits]

end Player

/-! ## Consoles -/

namespace Console

theorem performAll_bookAll (c : Console) (calls : List Call) :
    (Host.performAll c calls).player = c.player.bookAll (calls.flatMap Call.bookings) := by
  rw [performAll_player, Player.bookAll, List.foldl_flatMap]
  congr 1
  funext p call
  exact p.perform_eq_bookAll call

/-- Whatever a console is asked for, of every name there is what was there and what was bought or
given, without what was sold while there was any; nothing else moves. A sale finds a piece exactly
if there is one, and otherwise changes nothing. Every booking changes the money to the exact sum, or
to the limit next to it; to buy and sell again restores it unless the purchase came to a limit.
Edits of different resources can change places. -/
theorem books_kept (c : Console) (calls : List Call) :
    let bs := calls.flatMap Call.bookings
    let p := (Host.performAll c calls).player
    p = c.player.bookAll bs ∧
    (∀ name, p.inventory.count name + c.player.sales name bs =
      c.player.inventory.count name + bs.countP (·.brings name)) ∧
    (∀ keep : String → Bool,
      (∀ action item, .trade action item ∈ bs → keep item.name = false) →
        p.inventory.filter keep = c.player.inventory.filter keep) ∧
    (∀ item, (0 < p.inventory.count item.name ∧ ∃ before after,
        p.inventory = before ++ item.name :: after ∧ item.name ∉ before ∧
          p.trade .sell item = { p.pay item.price.toInt with inventory := before ++ after }) ∨
      p.inventory.count item.name = 0 ∧ p.trade .sell item = p) ∧
    (∀ b, (p.book b).money.toInt =
      max Int64.minValue.toInt (min (p.balance b) Int64.maxValue.toInt)) ∧
    (∀ item, let q := p.bookAll [.trade .buy item, .trade .sell item]
      q.inventory.Perm p.inventory ∧
        (q.money = p.money ↔ Int64.minValue.toInt ≤ p.balance (.trade .buy item) ∧
          p.balance (.trade .buy item) ≤ Int64.maxValue.toInt)) ∧
    (∀ edits edits' : List Edit,
      (∀ r, edits.filter (·.resource = r) = edits'.filter (·.resource = r)) →
        Host.perform (.edit edits) c = Host.perform (.edit edits') c) := by
  intro bs p
  have booked : p = c.player.bookAll bs := c.performAll_bookAll calls
  refine ⟨booked, ?_, ?_, p.sell_cases, p.money_book, p.buy_sell, ?_⟩
  · intro name
    rw [booked]
    exact c.player.count_bookAll name bs
  · intro keep others
    rw [booked]
    exact Player.filter_bookAll others c.player
  · intro edits edits' same
    show { c with player := _ } = { c with player := _ }
    rw [Player.edits_eq same]

/-- A rope is sold before and bought after; the cat stays where it is. -/
theorem books_kept_market :
    let c : Console := .new ⟨738886, by decide, by decide⟩
      { Player.initial with inventory := ["key", "cat", "key"] }
    let calls : List Call :=
      [.trade .sell ⟨"rope", 2⟩, .trade .sell ⟨"key", 5⟩, .trade .buy ⟨"rope", 2⟩]
    let rise : Edit := ⟨.salary, .add, 100⟩
    let loss : Edit := ⟨.money, .set, 0⟩
    let p := (Host.performAll c calls).player
    (∀ action item, .trade action item ∈ calls.flatMap Call.bookings →
      (item.name == "cat") = false) ∧ p.inventory.filter (· == "cat") = ["cat"] ∧
    p.inventory.count "key" = 1 ∧ p.inventory.count "rope" = 1 ∧
    (∀ r, [rise, loss].filter (·.resource = r) = [loss, rise].filter (·.resource = r)) ∧
    Host.perform (.edit [rise, loss]) c = Host.perform (.edit [loss, rise]) c := by
  intro c calls rise loss p
  obtain ⟨-, counts, order, -, -, -, edits⟩ := books_kept c calls
  have others : ∀ action item, .trade action item ∈ calls.flatMap Call.bookings →
      (item.name == "cat") = false := by
    intro action item mem
    have traded : action = .sell ∧ item = ⟨"rope", 2⟩ ∨ action = .sell ∧ item = ⟨"key", 5⟩ ∨
        action = .buy ∧ item = ⟨"rope", 2⟩ := by
      simpa [calls, Call.bookings] using mem
    rcases traded with ⟨-, rfl⟩ | ⟨-, rfl⟩ | ⟨-, rfl⟩ <;> rfl
  have apart (r : Resource) :
      [rise, loss].filter (·.resource = r) = [loss, rise].filter (·.resource = r) := by
    cases r <;> rfl
  have keys : p.inventory.count "key" + 1 = 2 := counts "key"
  have ropes : p.inventory.count "rope" + 0 = 1 := counts "rope"
  exact ⟨others, order _ others, Nat.succ.inj keys, ropes, apart, edits _ _ apart⟩

end Console

end Storyline
