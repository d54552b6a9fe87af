import DiceNotation.Expression
import DiceNotation.Program

set_option autoImplicit false

/-!
# What a program stands for

Each tree of a program stands for an expression, unless it has a defect. Programs that are read from
a text have none.

## Main definitions

* `Defect` — what keeps a tree from standing for an expression.
* `Node.expression`, `Program.rolls` — the expressions a program stands for, or its first defect.

## Implementation notes

Which defect of several is found first is fixed: an operation as left operand before anything else
of the operation, then the defects of the operands, then those of the operator; for dice the number,
then the modifier, then the faces.
-/

namespace DiceNotation

/-- What keeps a tree from standing for an expression. -/
inductive Defect where
  /-- The token holds no number, or none of the size that is needed. -/
  | notANumber (token : Token)
  /-- The token holds no or several characters where one is needed. -/
  | notOneCharacter (token : Token)
  /-- No modifier is written so. -/
  | notAModifier (char : Char)
  /-- No operator is written so. -/
  | notAnOperator (char : Char)
  /-- The left operand of an operation is itself an operation. -/
  | operationOnTheLeft
  deriving DecidableEq, Repr

/-- The message of a defect. -/
def Defect.message : Defect → String
  | notANumber token => token.text ++ " does not hold a valid number"
  | notOneCharacter token => token.text ++ " should hold a single character"
  | notAModifier c => "'" ++ String.ofList [c] ++ "' is not a modifier"
  | notAnOperator c => "'" ++ String.ofList [c] ++ "' is not an operator"
  | operationOnTheLeft =>
    "internal error: entered unreachable code: operations nest on the right, found one on the left"

namespace Token

/-- The only character of the lexeme. -/
def singleChar (t : Token) : Except Defect Char :=
  match t.lexeme.toList with
  | [c] => .ok c
  | _ => .error (.notOneCharacter t)

/-- The lexeme as a number of dice. -/
def count (t : Token) : Except Defect UInt8 :=
  (Numeral.uint8? t.lexeme).elim (.error (.notANumber t)) .ok

/-- The lexeme as a number of faces. -/
def faces (t : Token) : Except Defect Int32 :=
  (Numeral.int32? t.lexeme).elim (.error (.notANumber t)) .ok

/-- The lexeme as a modifier. -/
def modifier (t : Token) : Except Defect Modifier := do
  let c ← t.singleChar
  (Modifier.ofChar? c).elim (.error (.notAModifier c)) .ok

/-- The lexeme as an operator. -/
def operator (t : Token) : Except Defect Operator := do
  let c ← t.singleChar
  (Operator.ofChar? c).elim (.error (.notAnOperator c)) .ok

end Token

namespace Node

/-- The tree is an operation. -/
def isOperation : Node → Bool
  | operation .. => true
  | _ => false

/-- The dice that tokens stand for: one die if there is no number, summing if there is no
modifier. -/
def diceOf (times : Option Token) (faces : Token) (modifier : Option Token) : Except Defect Dice := do
  let number ← times.elim (.ok 1) Token.count
  let mode ← modifier.elim (.ok .none) Token.modifier
  return ⟨number, ← faces.faces, mode⟩

/-- The expression that a tree stands for. -/
def expression : Node → Except Defect Expression
  | number _ value => .ok (.constant value)
  | dice times _ faces modifier => .dice <$> diceOf times faces modifier
  | operation left op right =>
    if left.isOperation then .error .operationOnTheLeft
    else do
      let lhs ← left.expression
      let rhs ← right.expression
      return .operation (← op.operator) lhs rhs

end Node

/-- The expressions that a program stands for, in order. -/
def Program.rolls (p : Program) : Except Defect Rolls :=
  p.items.mapM Node.expression

end DiceNotation
