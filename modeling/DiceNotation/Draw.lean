import DiceNotation.Dice
import DiceNotation.WordSource

set_option autoImplicit false

/-!
# Drawing one die

How random words become the value of one die.

## Main definitions

* `Rolling` — a computation that takes words from a source; it may give up at a limit.
* `Draw.scaledFace` — the face of a die of up to `2 ^ 24` sides, from 24 random bits.
* `Draw.wideFace` — a face of a larger die; words that would favour some faces are passed over.
* `Draw.die` — the value of one die.

## Implementation notes

Up to `2 ^ 24` sides one word is enough: its upper 24 bits are a fraction of one, the product of the
fraction and the number of sides is kept to 24 significant bits, and the face is the next whole
number. All of this is exact arithmetic on natural numbers, with the fraction's denominator
multiplied out.

A larger die takes the upper half of the product of a word and the number of sides. The words whose
lower half is too large are passed over, so that every face belongs to equally many words. How many
words are passed over is not bounded, hence the limit.
-/

namespace DiceNotation

/-- A computation that takes words from a source. It yields nothing if it gave up at a limit. -/
abbrev Rolling (γ : Type) :=
  StateT γ Option

namespace Draw

variable {γ : Type} [WordSource γ]

/-- Takes the next word. -/
def word : Rolling γ UInt32 :=
  fun g => some (WordSource.next g)

/-- The largest number of sides for which the face is scaled from a fraction: `2 ^ 24`, which is also
the denominator of the fraction. -/
def maxScaledSides : Nat :=
  0x1000000

/-- A quotient by `2 ^ shift`, rounded to the nearest whole number, and to an even one halfway
between two. -/
def roundShift (n shift : Nat) : Nat :=
  let unit := 1 <<< shift
  let quotient := n / unit
  let twice := 2 * (n % unit)
  if unit < twice ∨ (twice = unit ∧ quotient % 2 = 1) then quotient + 1 else quotient

/-- The number nearest to `n` among those with at most 24 significant bits; halfway between two of
them, the one with an even last significant bit. -/
def roundSignificant (n : Nat) : Nat :=
  let shift := Nat.log2 n + 1 - 24
  roundShift n shift <<< shift

/-- The face for the fraction `k / 2 ^ 24` of `sides` sides: the rounded product, up to the next
whole number, and between `1` and `sides`. -/
def scaledFace (sides k : Nat) : Nat :=
  max 1 (min sides ((roundSignificant (k * sides) + (maxScaledSides - 1)) / maxScaledSides))

/-- The largest lower half of a product for which the word is taken: one less than the largest
multiple of `sides` by a power of two that 32 bits hold. -/
def zone (sides : Nat) : Nat :=
  sides <<< (31 - Nat.log2 sides) - 1

/-- A number below `sides`, or nothing if the first `limit` words are passed over. -/
def wideFace (sides : Nat) : Nat → Rolling γ Nat
  | 0 => fun _ => none
  | limit + 1 => do
    let w ← word
    let product := w.toNat * sides
    if product % UInt32.size ≤ zone sides then return product / UInt32.size
    else wideFace sides limit

/-- The value of one die. No word is taken for a die without faces. -/
def die (limit : Nat) (faces : Int32) : Rolling γ Int32 :=
  if faces = 0 then return 0
  else do
    let sides := faces.toInt.natAbs
    if sides ≤ maxScaledSides then
      let w ← word
      let face := scaledFace sides (w >>> 8).toNat
      return Int32.ofInt (if 0 < faces then face else -face)
    else
      let face ← wideFace sides limit
      return (if 0 < faces then 1 else faces) + Int32.ofNat face

end Draw

end DiceNotation
