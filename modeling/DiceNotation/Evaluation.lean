import DiceNotation.Roll
import DiceNotation.Settings
import DiceNotation.WordSource.Keystream

set_option autoImplicit false

/-!
# Evaluating expressions

An expression is evaluated with a way to roll dice. One way draws all dice from one source, in the
order in which they are written. Another gives each dice term the words of a seed from the first one
on, so that equal terms have equal outcomes wherever they stand.

## Main definitions

* `Expression.evaluate` — the outcome of an expression, for any way to roll dice.
* `Expression.result`, `Expression.resultSeeded` — the two ways.
* `Rolls.evaluate` — the outcomes of expressions in a row, for any way to roll dice.
* `Rolls.results`, `Rolls.values` — their outcomes and their values, drawn from one source.
* `Rolls.resultsSeeded`, `Rolls.resultsFor` — their outcomes with a seed, and as the settings say.
-/

namespace DiceNotation

namespace Expression

/-- The outcome of an expression. The left operand of an operation comes first. -/
def evaluate {m : Type → Type} [Monad m] (roll : Dice → m Outcome) : Expression → m Outcome
  | constant value => return Outcome.leaf (.constant value) value
  | die faces value => return Outcome.leaf (.die faces value) value
  | dice d => roll d
  | operation op lhs rhs => do
    let left ← lhs.evaluate roll
    let right ← rhs.evaluate roll
    return ⟨.operation op lhs rhs, op.apply left.value right.value, [left, right]⟩

/-- The outcome of an expression, with all dice drawn from one source. -/
def result {γ : Type} [WordSource γ] (limit : Nat) (e : Expression) : Rolling γ Outcome :=
  e.evaluate (Dice.evaluate limit)

/-- The outcome of dice that are drawn from the first words of a seed. -/
def seededDice (limit : Nat) (seed : UInt64) (d : Dice) : Option Outcome :=
  (d.evaluate limit).run' (Keystream.ofSeed seed)

/-- The outcome of an expression, with each dice term drawn from the first words of a seed. -/
def resultSeeded (limit : Nat) (seed : UInt64) (e : Expression) : Option Outcome :=
  e.evaluate (seededDice limit seed)

end Expression

namespace Rolls

/-- The outcomes of all expressions, for any way to roll dice. -/
def evaluate {m : Type → Type} [Monad m] (roll : Dice → m Outcome) : Rolls → m (List Outcome)
  | [] => return []
  | e :: es => do
    let o ← e.evaluate roll
    let os ← evaluate roll es
    return o :: os

variable {γ : Type} [WordSource γ]

/-- The outcomes of all expressions, with all dice drawn from one source. -/
def results (limit : Nat) (rolls : Rolls) : Rolling γ (List Outcome) :=
  rolls.evaluate (Dice.evaluate limit)

/-- The values of all expressions, with all dice drawn from one source. -/
def values (limit : Nat) : Rolls → Rolling γ (List Int32)
  | [] => return []
  | e :: es => do
    let o ← e.result limit
    let vs ← values limit es
    return o.value :: vs

/-- The outcomes of all expressions, with each dice term drawn from the first words of a seed. -/
def resultsSeeded (limit : Nat) (seed : UInt64) (rolls : Rolls) : Option (List Outcome) :=
  rolls.evaluate (Expression.seededDice limit seed)

/-- The outcomes of all expressions as the settings say. The source is drawn from only if the
settings have no seed. -/
def resultsFor (settings : Settings) (limit : Nat) (rolls : Rolls) : Rolling γ (List Outcome) :=
  match settings.seed with
  | some seed => fun g => (rolls.resultsSeeded limit seed).map (·, g)
  | none => rolls.results limit

end Rolls

end DiceNotation
