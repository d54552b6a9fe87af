import DiceNotation.Evaluation
import DiceNotation.Reading

set_option autoImplicit false

/-!
# Rolling a text, with a journal

## Main definitions

* `rollText` — the outcomes of a text.
* `Message` — an entry of the journal: a token that was looked at, a text that was parsed, dice that
  were rolled.
* `rollWithJournal` — the outcomes of a text, and what happened on the way.

## Implementation notes

The journal of the rolls is kept while rolling: each dice term adds its entry when it has been
rolled. What was looked at is known from the buffer of the token stream.
-/

namespace DiceNotation

/-- How much a message matters. -/
inductive Level where
  | debug
  | trace
  deriving DecidableEq, Repr

/-- The name of a level. -/
def Level.text : Level → String
  | debug => "DEBUG"
  | trace => "TRACE"

/-- An entry of the journal. -/
inductive Message where
  /-- A token was looked at before it was read. -/
  | buffered (token : Token)
  /-- A text of this many expressions was parsed. -/
  | parsed (count : Nat)
  /-- Dice were rolled: what they showed and what it amounts to. -/
  | rolled (dice : Dice) (rolls : List Int32) (value : Int32)
  deriving DecidableEq, Repr

namespace Message

/-- How much the message matters. -/
def level : Message → Level
  | buffered _ => .trace
  | _ => .debug

/-- The message as it is shown. -/
def text : Message → String
  | buffered token => "buffered token " ++ token.text
  | parsed count => "parsed " ++ count.repr ++ " expressions"
  | rolled dice rolls value =>
    "rolled " ++ dice.text ++ ": " ++ Outcome.bracketed rolls ++ " = " ++ Numeral.ofInt32 value

end Message

variable {γ : Type} [WordSource γ]

/-- Rolls dice and adds an entry to the journal. -/
def Dice.evaluateWithJournal (limit : Nat) (d : Dice) :
    StateT (Array Message) (Rolling γ) Outcome := do
  let rolls ← (d.roll limit : Rolling γ (List Int32))
  modify (·.push (.rolled d rolls (d.combine rolls)))
  return d.outcomeOf rolls

/-- The outcomes of a text, with all dice drawn from one source. -/
def rollText (limit : Nat) (text : String) : Rolling γ (Except Failure (List Outcome)) :=
  match Rolls.ofText text with
  | .error e => return .error e
  | .ok rolls => .ok <$> rolls.results limit

/-- The outcomes of a text, and what happened on the way. -/
def rollWithJournal (limit : Nat) (text : String) :
    Rolling γ (Except Failure (List Outcome) × List Message) := do
  let (parsed, parser) := (Parser.ofStream (Lookahead.ofText text.toList)).parse
  let looked := parser.tokens.buffered.toList.map Message.buffered
  match parsed with
  | .error e => return (.error (.unparsable e), looked)
  | .ok program =>
    let read := looked ++ [.parsed program.items.length]
    match program.rolls with
    | .error d => return (.error (.defective d), read)
    | .ok rolls =>
      let (outcomes, rolled) ← (rolls.evaluate (Dice.evaluateWithJournal limit)).run #[]
      return (.ok outcomes, read ++ rolled.toList)

end DiceNotation
