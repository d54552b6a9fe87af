import DiceNotation.Parser
import DiceNotation.Program.Meaning

set_option autoImplicit false

/-!
# Reading expressions from a text

## Main definitions

* `Failure` — why a text has no expressions.
* `Rolls.ofText` — the expressions of a text.
-/

namespace DiceNotation

/-- Why a text has no expressions. The second case does not arise: what is parsed has no defects. -/
inductive Failure where
  /-- The text does not follow the grammar. -/
  | unparsable (error : ParseError)
  /-- A tree stands for no expression. -/
  | defective (defect : Defect)
  deriving DecidableEq, Repr

/-- The expressions of a text, in order. -/
def Rolls.ofText (text : String) : Except Failure Rolls := do
  let program ← (parse text).mapError .unparsable
  program.rolls.mapError .defective

end DiceNotation
