set_option autoImplicit false

/-!
# Symbols of the notation

Modifiers decide what the rolls of some dice amount to, operators combine two values.

## Main definitions

* `Modifier`, `Operator` — the symbols, with `symbol` and `ofChar?` between symbols and characters.
* `Operator.apply` — addition and subtraction of 32-bit values, modulo `2 ^ 32`.

## Main results

* `Modifier.ofChar?_eq_some_iff`, `Operator.ofChar?_eq_some_iff` — reading a character finds
  exactly the symbol that is written so.
-/

namespace DiceNotation

/-- What the rolls of some dice amount to. -/
inductive Modifier where
  /-- The sum of all rolls; written without a character. -/
  | none
  /-- `H`: the highest roll. -/
  | keepHigh
  /-- `L`: the lowest roll. -/
  | keepLow
  /-- `h`: the sum without the highest roll. -/
  | dropHigh
  /-- `l`: the sum without the lowest roll. -/
  | dropLow
  /-- `e`: the sum, where the highest value of a die calls for another die. -/
  | explode
  deriving DecidableEq, Repr, Inhabited

/-- What joins two operands. -/
inductive Operator where
  /-- `+` -/
  | add
  /-- `-` -/
  | sub
  deriving DecidableEq, Repr, Inhabited

namespace Modifier

/-- All modifiers, in the order of their listing. -/
def all : List Modifier :=
  [none, keepHigh, keepLow, dropHigh, dropLow, explode]

/-- The character written behind the dice; summing has none. -/
def symbol : Modifier → Option Char
  | none => .none
  | keepHigh => some 'H'
  | keepLow => some 'L'
  | dropHigh => some 'h'
  | dropLow => some 'l'
  | explode => some 'e'

/-- The modifier that a character stands for. -/
def ofChar? : Char → Option Modifier
  | 'H' => some keepHigh
  | 'L' => some keepLow
  | 'h' => some dropHigh
  | 'l' => some dropLow
  | 'e' => some explode
  | _ => .none

/-- The modifier as it is written behind the dice. -/
def text (m : Modifier) : String :=
  match m.symbol with
  | some c => String.ofList [c]
  | .none => ""

/-- The name of a modifier in data. -/
def name : Modifier → String
  | none => "None"
  | keepHigh => "KeepHigh"
  | keepLow => "KeepLow"
  | dropHigh => "DropHigh"
  | dropLow => "DropLow"
  | explode => "Explode"

/-- Reading a character finds exactly the modifier that is written so. -/
theorem ofChar?_eq_some_iff {c : Char} {m : Modifier} : ofChar? c = some m ↔ m.symbol = some c := by
  constructor
  · unfold ofChar?
    split <;> rintro ⟨⟩ <;> rfl
  · cases m <;> rintro ⟨⟩ <;> rfl

end Modifier

namespace Operator

/-- All operators, in the order of their listing. -/
def all : List Operator :=
  [add, sub]

/-- The character of an operator. -/
def symbol : Operator → Char
  | add => '+'
  | sub => '-'

/-- The operator that a character stands for. -/
def ofChar? : Char → Option Operator
  | '+' => some add
  | '-' => some sub
  | _ => none

/-- The operator as it is written between its operands. -/
def text (op : Operator) : String :=
  String.ofList [op.symbol]

/-- The name of an operator in data. -/
def name : Operator → String
  | add => "Add"
  | sub => "Sub"

/-- Values have 32 bits and wrap. -/
def apply (op : Operator) (lhs rhs : Int32) : Int32 :=
  match op with
  | add => lhs + rhs
  | sub => lhs - rhs

/-- Reading a character finds exactly the operator that is written so. -/
theorem ofChar?_eq_some_iff {c : Char} {op : Operator} : ofChar? c = some op ↔ op.symbol = c := by
  constructor
  · unfold ofChar?
    split <;> rintro ⟨⟩ <;> rfl
  · cases op <;> rintro rfl <;> rfl

end Operator

end DiceNotation
