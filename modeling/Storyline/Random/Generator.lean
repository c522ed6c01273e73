import Storyline.Random.Cipher

/-!
# Random generators

A generator hands out the words of an endless sequence in order. A draw turns what is read of them
into a number below a bound: what is read is multiplied by the bound, the upper half of the product
is the number, and what makes a lower half above a zone is passed over, so that every number is as
likely as its share of what can be read.

* `Lottery.take?`: what one reading decides.
* `Generator.draw`: the number drawn, and the generator after it.
-/

namespace Storyline

/-- An endless sequence of words and how many of them have been handed out. -/
structure Generator where
  words : Nat → UInt32
  drawn : Nat

namespace Generator

/-- The generator of a key's stream. -/
def ofKey (key : Cipher.Key) : Generator :=
  ⟨Cipher.word key, 0⟩

def ofSeed (seed : UInt64) : Generator :=
  ofKey (Cipher.keyOfSeed seed)

/-- The generator that hands out the given words and then zeros. -/
def ofWords (words : List UInt32) : Generator :=
  ⟨fun i => words.getD i 0, 0⟩

def next (g : Generator) : UInt32 × Generator :=
  (g.words g.drawn, { g with drawn := g.drawn + 1 })

end Generator

/-! ## Draws -/

/-- How many numbers can be read at a time: from one word, or from two. -/
def Generator.span (wide : Bool) : Nat :=
  if wide then 0x10000000000000000 else 0x100000000

/-- The number that is read from the next word, or from the next two, the lower one first. -/
def Generator.read (g : Generator) : Bool → Nat × Generator
  | false => (g.next.1.toNat, g.next.2)
  | true => (g.next.1.toNat + 0x100000000 * g.next.2.next.1.toNat, g.next.2.next.2)

/-- A bound for the numbers drawn, the greatest lower half that is accepted, and whether two words
are read at a time. -/
structure Lottery where
  bound : Nat
  zone : Nat
  wide : Bool
  deriving DecidableEq, Repr

namespace Lottery

/-- Numbers below `n`, each alike. The zone is the greatest multiple of `n` by a power of two that
fits, less one. -/
def uniform (n : Nat) : Lottery :=
  if n < 0x100000000 then ⟨n, (n <<< (31 - n.log2)) - 1, false⟩
  else ⟨n, (n <<< (63 - n.log2)) - 1, true⟩

@[simp] theorem bound_uniform (n : Nat) : (uniform n).bound = n := by
  unfold uniform
  split <;> rfl

/-- Numbers below `n`, for `n` shares of which some belong together. The zone is the greatest
multiple of `n` that fits, less one. -/
def shares (n : Nat) : Lottery :=
  ⟨n, 0xFFFFFFFF - (0x100000000 - n) % n, false⟩

/-- The number that a reading decides on, if it is accepted. -/
def take? (l : Lottery) (reading : Nat) : Option Nat :=
  let product := reading * l.bound
  if product % Generator.span l.wide ≤ l.zone then some (product / Generator.span l.wide) else none

/-- Reads until a number is accepted. If none ever is, there is no end to it. -/
def drawUntil (l : Lottery) : StateT Generator Option Nat := fun g =>
  match l.take? (g.read l.wide).1 with
  | some n => some (n, (g.read l.wide).2)
  | none => l.drawUntil.run (g.read l.wide).2
partial_fixpoint

end Lottery

/-- The number drawn. Zero stands for a draw without an end. -/
def Generator.draw (g : Generator) (l : Lottery) : Nat × Generator :=
  (l.drawUntil g).getD (0, { g with drawn := 0 })

end Storyline
