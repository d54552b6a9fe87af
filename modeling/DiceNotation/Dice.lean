import DiceNotation.Symbol
import DiceNotation.Text.Numeral

set_option autoImplicit false

/-!
# Dice

Some dice of one kind and what their rolls amount to.

## Main definitions

* `Dice` — how many dice, how many faces each, and the modifier.
* `Dice.bounds` — the lowest and the highest value of one die.
* `Dice.combine` — what a list of rolls amounts to.
* `Dice.text` — the dice in the notation.
-/

namespace DiceNotation

/-- `number` dice with `faces` faces each. A die with positive faces shows `1` to `faces`, one with
negative faces shows `faces` to `-1`, and one without faces always shows `0`. -/
structure Dice where
  /-- How many dice are rolled. -/
  number : UInt8
  /-- How many faces each die has. -/
  faces : Int32
  /-- What the rolls amount to. -/
  modifier : Modifier
  deriving DecidableEq, Repr, Inhabited

namespace Dice

/-- The lowest value of one die. -/
def lower (d : Dice) : Int32 :=
  if 0 < d.faces then 1 else d.faces

/-- The highest value of one die. -/
def upper (d : Dice) : Int32 :=
  if d.faces < 0 then -1 else d.faces

/-- The lowest and the highest value of one die. -/
def bounds (d : Dice) : Int32 × Int32 :=
  (d.lower, d.upper)

/-- The sum of the rolls, modulo `2 ^ 32`. -/
def sum (rolls : List Int32) : Int32 :=
  rolls.foldl (· + ·) 0

/-- The highest roll, or `0` if there is none. -/
def highest (rolls : List Int32) : Int32 :=
  rolls.max?.getD 0

/-- The lowest roll, or `0` if there is none. -/
def lowest (rolls : List Int32) : Int32 :=
  rolls.min?.getD 0

/-- What the rolls amount to. -/
def combine (d : Dice) (rolls : List Int32) : Int32 :=
  match d.modifier with
  | .none | .explode => sum rolls
  | .keepHigh => highest rolls
  | .keepLow => lowest rolls
  | .dropHigh => sum rolls - highest rolls
  | .dropLow => sum rolls - lowest rolls

/-- The dice in the notation; the number of a single die is left out. -/
def text (d : Dice) : String :=
  (if d.number = 1 then "" else d.number.toNat.repr) ++ "d" ++ Numeral.ofInt32 d.faces ++
    d.modifier.text

end Dice

end DiceNotation
