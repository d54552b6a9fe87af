import DiceNotation.Expression

set_option autoImplicit false

/-!
# Outcomes

The value that an expression came to, together with how it got there.

## Main definitions

* `Outcome` — an expression, its value, and the outcomes the value was made from.
* `Outcome.diceRolls` — the dice on the table, in the order in which they were rolled.
* `Outcome.text` — an outcome as it is shown.
-/

namespace DiceNotation

/-- The value that an expression came to. -/
structure Outcome where
  /-- What was rolled. -/
  expression : Expression
  /-- What it came to. -/
  value : Int32
  /-- What contributed: one outcome for each die, or one for each operand. -/
  steps : List Outcome
  deriving Repr, Inhabited

namespace Outcome

/-- The outcome of something that has its value without further steps. -/
def leaf (expression : Expression) (value : Int32) : Outcome :=
  ⟨expression, value, []⟩

/-! ## Equality -/

mutual

/-- Outcomes are equal if they agree in expression, value and steps. -/
def decEq : (a b : Outcome) → Decidable (a = b)
  | ⟨e, v, s⟩, ⟨e', v', s'⟩ =>
    if he : e = e' then
      if hv : v = v' then
        match decEqList s s' with
        | isTrue hs => isTrue (by rw [he, hv, hs])
        | isFalse hs => isFalse fun h => hs (Outcome.mk.inj h).2.2
      else isFalse fun h => hv (Outcome.mk.inj h).2.1
    else isFalse fun h => he (Outcome.mk.inj h).1

/-- Lists of outcomes are equal if they agree place by place. -/
def decEqList : (a b : List Outcome) → Decidable (a = b)
  | [], [] => isTrue rfl
  | [], _ :: _ => isFalse nofun
  | _ :: _, [] => isFalse nofun
  | x :: xs, y :: ys =>
    match decEq x y with
    | isTrue hx =>
      match decEqList xs ys with
      | isTrue hxs => isTrue (by rw [hx, hxs])
      | isFalse hxs => isFalse fun h => hxs (List.cons.inj h).2
    | isFalse hx => isFalse fun h => hx (List.cons.inj h).1

end

instance : DecidableEq Outcome := decEq

/-! ## Dice and texts -/

mutual

/-- The values of the dice on the table, in rolling order. The value of a single die is the one
that its expression holds. -/
def diceRolls : Outcome → List Int32
  | ⟨.die _ value, _, _⟩ => [value]
  | ⟨_, _, steps⟩ => diceRollsOf steps

/-- The dice of several outcomes. -/
def diceRollsOf : List Outcome → List Int32
  | [] => []
  | o :: os => o.diceRolls ++ diceRollsOf os

end

/-- Values between brackets. -/
def bracketed (values : List Int32) : String :=
  "[" ++ ", ".intercalate (values.map Numeral.ofInt32) ++ "]"

/-- An outcome as it is shown: rolled dice as the list of their values, an operation of two operands
as both of them and the operator, and everything else as its value. -/
def text : Outcome → String
  | ⟨.dice _, _, steps⟩ => bracketed (steps.map value)
  | ⟨.operation op _ _, _, [lhs, rhs]⟩ => lhs.text ++ " " ++ op.text ++ " " ++ rhs.text
  | ⟨_, value, _⟩ => Numeral.ofInt32 value

end Outcome

end DiceNotation
