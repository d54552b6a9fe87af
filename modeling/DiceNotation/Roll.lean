import DiceNotation.Draw
import DiceNotation.Outcome

set_option autoImplicit false

/-!
# Rolling dice

## Main definitions

* `Dice.roll` — the values of all dice, in the order in which they are drawn.
* `Dice.outcomeOf` — the outcome that belongs to some rolls.
* `Dice.evaluate` — rolls the dice and yields their outcome.

## Implementation notes

Exploding dice go on as long as the last die shows the highest value. Dice that show only one value
never explode. The limit bounds both the further dice and the words that one die passes over.
-/

namespace DiceNotation

namespace Draw

variable {γ : Type} [WordSource γ]

/-- The values of several dice. -/
def dice (limit : Nat) (faces : Int32) : Nat → Rolling γ (List Int32)
  | 0 => return []
  | n + 1 => do
    let value ← die limit faces
    let values ← dice limit faces n
    return value :: values

/-- The values of the dice that follow a die showing `last`, as long as the last one shows `top`. -/
def explosions (limit : Nat) (faces top : Int32) : Nat → Int32 → Rolling γ (List Int32)
  | 0, _ => fun _ => none
  | n + 1, last =>
    if last = top then do
      let value ← die limit faces
      let values ← explosions limit faces top n value
      return value :: values
    else return []

end Draw

namespace Dice

variable {γ : Type} [WordSource γ]

/-- The dice explode: they are marked so, and a die shows more than one value. -/
def explodes (d : Dice) : Bool :=
  d.modifier = .explode ∧ d.lower ≠ d.upper

/-- The values of all dice, in the order in which they are drawn. -/
def roll (limit : Nat) (d : Dice) : Rolling γ (List Int32) := do
  let rolls ← Draw.dice limit d.faces d.number.toNat
  match rolls.getLast? with
  | some last =>
    if d.explodes then
      let further ← Draw.explosions limit d.faces d.upper limit last
      return rolls ++ further
    else return rolls
  | none => return rolls

/-- The outcome of dice that showed `rolls`, with a step for each of them. -/
def outcomeOf (d : Dice) (rolls : List Int32) : Outcome where
  expression := .dice d
  value := d.combine rolls
  steps := rolls.map fun v => Outcome.leaf (.die d.faces v) v

/-- Rolls the dice. -/
def evaluate (limit : Nat) (d : Dice) : Rolling γ Outcome := do
  return d.outcomeOf (← d.roll limit)

end Dice

end DiceNotation
