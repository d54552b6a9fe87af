import DiceNotation.WordSource

set_option autoImplicit false

/-!
# The ChaCha keystream as a source of words

ChaCha with 12 rounds turns a key and a block counter into blocks of 16 words. The blocks one after
the other are a source of words that depends on nothing but the key.

## Main definitions

* `Keystream.block` — one block of the keystream.
* `Keystream.keyOfSeed` — a key that is spread out from a seed of 64 bits.
* `Keystream.ofSeed` — the source of words that belongs to a seed.

## Implementation notes

A state is four rows of four words. A round of the cipher works on the columns and then, after the
rows have been turned against each other, on the diagonals.
-/

namespace DiceNotation

/-- A state of the cipher: sixteen words. -/
abbrev Block := Vector UInt32 16

/-- The words of a keystream that have not been taken. -/
structure Keystream where
  /-- The key. -/
  key : Vector UInt32 8
  /-- The number of the next block. -/
  counter : UInt64
  /-- The words of the current block that have not been taken. -/
  pending : List UInt32
  deriving DecidableEq, Repr

namespace Keystream

/-- A word turned left by `n` bits, for `n` between 1 and 31. -/
def rotateLeft (w n : UInt32) : UInt32 :=
  (w <<< n) ||| (w >>> (32 - n))

/-- A word turned right by `n` bits, for `n` below 32. -/
def rotateRight (w n : UInt32) : UInt32 :=
  if n = 0 then w else rotateLeft w (32 - n)

/-- Mixes four of the sixteen words. -/
def quarterRound (s : Block) (a b c d : Fin 16) : Block :=
  let s := s.set a (s[a] + s[b])
  let s := s.set d (rotateLeft (s[d] ^^^ s[a]) 16)
  let s := s.set c (s[c] + s[d])
  let s := s.set b (rotateLeft (s[b] ^^^ s[c]) 12)
  let s := s.set a (s[a] + s[b])
  let s := s.set d (rotateLeft (s[d] ^^^ s[a]) 8)
  let s := s.set c (s[c] + s[d])
  s.set b (rotateLeft (s[b] ^^^ s[c]) 7)

/-- One round on the columns and one on the diagonals. -/
def doubleRound (s : Block) : Block :=
  let s := quarterRound s 0 4 8 12
  let s := quarterRound s 1 5 9 13
  let s := quarterRound s 2 6 10 14
  let s := quarterRound s 3 7 11 15
  let s := quarterRound s 0 5 10 15
  let s := quarterRound s 1 6 11 12
  let s := quarterRound s 2 7 8 13
  quarterRound s 3 4 9 14

/-- The words that every state begins with. -/
def constants : Vector UInt32 4 :=
  #v[0x61707865, 0x3320646e, 0x79622d32, 0x6b206574]

/-- The counter as two words, the low one first, and an empty nonce. -/
def position (counter : UInt64) : Vector UInt32 4 :=
  #v[counter.toUInt32, (counter >>> 32).toUInt32, 0, 0]

/-- The state before the first round. -/
def initial (key : Vector UInt32 8) (counter : UInt64) : Block :=
  constants ++ key ++ position counter

/-- The number of double rounds. -/
def doubleRounds : Nat :=
  6

/-- One block of the keystream: the state after all rounds, added to the state before them. -/
def block (key : Vector UInt32 8) (counter : UInt64) : Block :=
  let s := initial key counter
  s.zipWith (· + ·) (doubleRounds.repeat doubleRound s)

/-! ## Seeds -/

/-- One step of a congruential sequence of 64-bit states. -/
def nextState (state : UInt64) : UInt64 :=
  state * 6364136223846793005 + 11634580027462260723

/-- The word shown by a state: its high bits folded together and turned by the highest ones. -/
def shownWord (state : UInt64) : UInt32 :=
  rotateRight (((state >>> 18) ^^^ state) >>> 27).toUInt32 (state >>> 59).toUInt32

/-- The key of a seed: the words shown by the states behind it. -/
def keyOfSeed (seed : UInt64) : Vector UInt32 8 :=
  Vector.ofFn fun i => shownWord ((i.val + 1).repeat nextState seed)

/-- The words of a seed, from the first one on. -/
def ofSeed (seed : UInt64) : Keystream :=
  ⟨keyOfSeed seed, 0, []⟩

instance : WordSource Keystream where
  next s :=
    match s.pending with
    | w :: ws => (w, { s with pending := ws })
    | [] =>
      let words := block s.key s.counter
      (words.head, { s with counter := s.counter + 1, pending := words.toList.tail })

end Keystream

end DiceNotation
