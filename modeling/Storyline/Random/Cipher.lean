/-!
# A stream of random words

The words come from the ChaCha stream cipher with twelve rounds: block after block of sixteen words,
for a key of eight words. A number of 64 bits is expanded to a key by a congruential generator whose
states are mixed and rotated.
-/

namespace Storyline.Cipher

abbrev Key := Vector UInt32 8

abbrev State := Vector UInt32 16

def rotateLeft (x : UInt32) (n : UInt32) : UInt32 :=
  (x <<< n) ||| (x >>> (32 - n))

def rotateRight (x : UInt32) (n : UInt32) : UInt32 :=
  (x >>> n) ||| (x <<< (32 - n))

/-! ## Keys -/

/-- One step of the congruential generator that expands a seed. -/
def nextSeed (s : UInt64) : UInt64 :=
  s * 6364136223846793005 + 11634580027462260723

/-- The word that a state of that generator gives. -/
def seedWord (s : UInt64) : UInt32 :=
  rotateRight (((s >>> 18) ^^^ s) >>> 27).toUInt32 (s >>> 59).toUInt32

/-- So many words from a seed. -/
def seedWords : Nat → UInt64 → List UInt32
  | 0, _ => []
  | n + 1, s =>
    let s := nextSeed s
    seedWord s :: seedWords n s

/-- The key that a seed is expanded to. -/
def keyOfSeed (seed : UInt64) : Key :=
  Vector.ofFn fun i => (seedWords 8 seed).getD i 0

/-! ## Blocks -/

/-- Adds, mixes and rotates four words of the state. -/
def quarterRound (s : State) (a b c d : Fin 16) : State :=
  let s := s.set a (s[a] + s[b])
  let s := s.set d (rotateLeft (s[d] ^^^ s[a]) 16)
  let s := s.set c (s[c] + s[d])
  let s := s.set b (rotateLeft (s[b] ^^^ s[c]) 12)
  let s := s.set a (s[a] + s[b])
  let s := s.set d (rotateLeft (s[d] ^^^ s[a]) 8)
  let s := s.set c (s[c] + s[d])
  s.set b (rotateLeft (s[b] ^^^ s[c]) 7)

/-- A round on the columns and one on the diagonals. -/
def doubleRound (s : State) : State :=
  let s := quarterRound s 0 4 8 12
  let s := quarterRound s 1 5 9 13
  let s := quarterRound s 2 6 10 14
  let s := quarterRound s 3 7 11 15
  let s := quarterRound s 0 5 10 15
  let s := quarterRound s 1 6 11 12
  let s := quarterRound s 2 7 8 13
  quarterRound s 3 4 9 14

/-- The state before the rounds: four constants, the key, the number of the block, and zeros. -/
def initial (key : Key) (counter : UInt64) : State :=
  #v[0x61707865, 0x3320646e, 0x79622d32, 0x6b206574,
    key[0], key[1], key[2], key[3], key[4], key[5], key[6], key[7],
    counter.toUInt32, (counter >>> 32).toUInt32, 0, 0]

/-- A block of the stream: the state after six double rounds, added to the state before them. -/
def block (key : Key) (counter : UInt64) : State :=
  let start := initial key counter
  Vector.zipWith (· + ·) (Nat.repeat doubleRound 6 start) start

/-- The words of the stream of a key. -/
def word (key : Key) (i : Nat) : UInt32 :=
  (block key (UInt64.ofNat (i / 16))).get ⟨i % 16, Nat.mod_lt i (by decide)⟩

end Storyline.Cipher
