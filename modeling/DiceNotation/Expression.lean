import DiceNotation.Dice

set_option autoImplicit false

/-!
# Expressions

What can be rolled.

## Main definitions

* `Expression` — constants, dice, dice that already lie on the table, and operations.
* `Expression.text` — an expression in the notation.
* `Rolls` — expressions that are rolled one after the other.
* `Rolls.text` — such expressions in the notation.
-/

namespace DiceNotation

/-- Something that can be rolled. -/
inductive Expression where
  /-- A fixed value. -/
  | constant (value : Int32)
  /-- Dice to roll. -/
  | dice (dice : Dice)
  /-- Two operands, which are rolled one after the other, and what joins them. -/
  | operation (operator : Operator) (lhs rhs : Expression)
  /-- One die with `faces` faces that has been rolled and shows `value`. -/
  | die (faces value : Int32)
  deriving DecidableEq, Repr, Inhabited

/-- Expressions that are rolled one after the other. -/
abbrev Rolls := List Expression

/-- An expression in the notation, without parentheses. -/
def Expression.text : Expression → String
  | constant value => Numeral.ofInt32 value
  | dice d => d.text
  | operation op lhs rhs => lhs.text ++ " " ++ op.text ++ " " ++ rhs.text
  | die faces _ => "d" ++ Numeral.ofInt32 faces

/-- Expressions in the notation, with separators between them. -/
def Rolls.text (rolls : Rolls) : String :=
  "; ".intercalate (rolls.map Expression.text)

end DiceNotation
