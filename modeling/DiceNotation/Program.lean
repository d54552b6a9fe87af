import DiceNotation.Token

set_option autoImplicit false

/-!
# Programs

A program is a list of syntax trees, one for each expression of a text. The trees keep the tokens
they were read from.

## Main definitions

* `Node` — a syntax tree: a number, some dice, or an operation.
* `Program` — the trees of a text, in order.
-/

namespace DiceNotation

/-- A syntax tree. Operations read from a text nest on the right: their left operand is a number
or some dice. -/
inductive Node where
  /-- A number and its value. -/
  | number (token : Token) (value : Int32)
  /-- Dice: how many, the letter between, the faces of each, and the modifier behind. -/
  | dice (times : Option Token) (dSymbol faces : Token) (modifier : Option Token)
  /-- Two operands and the operator between them. -/
  | operation (left : Node) (operator : Token) (right : Node)
  deriving DecidableEq, Repr, Inhabited

/-- The syntax trees of a text, in order. -/
structure Program where
  /-- One tree for each expression. -/
  items : List Node
  deriving DecidableEq, Repr, Inhabited

end DiceNotation
