import DiceNotation.Lexer
import DiceNotation.Text.Numeral

set_option autoImplicit false

/-!
# Errors of a text

## Main definitions

* `Misfit` — why a token does not fit where it stands.
* `SyntaxError` — a token that does not fit, the cause, and the place to point at.
* `ParseError` — such an error, or a character that begins no token.
* `ParseError.message`, `ParseError.position` — what is shown, and where.
-/

namespace DiceNotation

/-- Why a token does not fit where it stands. -/
inductive Misfit where
  /-- A text begins with its start. -/
  | notSof
  /-- Behind the last expression comes the end of the text. -/
  | notEof
  /-- Behind a further expression of a list comes a separator or the end of the text. -/
  | notListEnd
  /-- Two operands have an operator between them. -/
  | notOperator
  /-- Dice have the letter between count and faces. -/
  | notDSymbol
  /-- A number belongs here, and 32 bits must hold it. -/
  | notNumber
  /-- There are between 1 and 255 dice, not `count`. -/
  | countOutOfRange (count : Int32)
  /-- The modifier is none that is known. -/
  | notModifier
  /-- A die that always shows the same face would explode for ever. -/
  | explodingFaces (faces : Int32)
  deriving DecidableEq, Repr

/-- A token that does not fit where it stands. -/
structure SyntaxError where
  /-- The token. -/
  token : Token
  /-- Why it does not fit. -/
  misfit : Misfit
  /-- The place to point at. -/
  position : Int
  deriving DecidableEq, Repr

/-- What can be wrong with a text. -/
inductive ParseError where
  /-- A character begins no token. -/
  | unknownToken (error : UnknownToken)
  /-- A token does not fit where it stands. -/
  | misplaced (error : SyntaxError)
  deriving DecidableEq, Repr

namespace UnknownToken

/-- The message of a character that begins no token. -/
def message (e : UnknownToken) : String :=
  "Unknown token '" ++ String.ofList [e.char] ++ "' at position " ++ e.position.repr ++ "."

end UnknownToken

namespace SyntaxError

/-- An error at the first character of the token. -/
def atToken (token : Token) (misfit : Misfit) : SyntaxError :=
  ⟨token, misfit, token.startPos⟩

/-- What was found where a number belongs: a numeral that does not fit, or another kind of token. -/
def foundForNumber (token : Token) : String :=
  if token.kind = .number then token.lexeme else token.kind.text

/-- What was expected and what was found. -/
def reason (e : SyntaxError) : String :=
  let kind := e.token.kind.text
  match e.misfit with
  | .notSof => "expected to find the SOF, but found " ++ kind
  | .notEof => "expected to find the EOF, but found " ++ kind
  | .notListEnd =>
    "expected to find an operator, an expression separator or the EOF, but found " ++ kind
  | .notOperator => "operator (either '+' or '-') expected, but found " ++ kind
  | .notDSymbol => "'d' letter expected, but found " ++ kind
  | .notNumber =>
    "number in range [-2147483648, 2147483647] expected, but found " ++ foundForNumber e.token
  | .countOutOfRange count =>
    "number between [1, 255] expected, but found " ++ Numeral.ofInt32 count
  | .notModifier =>
    "modifier (either one of 'H', 'h', 'L', 'l' or 'e') expected, but found " ++ kind
  | .explodingFaces faces =>
    "exploding dice need more than one face, but found " ++ Numeral.ofInt32 faces

/-- The message of a token that does not fit. -/
def message (e : SyntaxError) : String :=
  "Syntax error at position " ++ e.position.repr ++ ": " ++ e.reason ++ "."

end SyntaxError

namespace ParseError

/-- The message that is shown. -/
def message : ParseError → String
  | unknownToken e => e.message
  | misplaced e => e.message

/-- The place to mark when the message is shown under the text. -/
def position : ParseError → Int
  | unknownToken e => e.position
  | misplaced e => e.position

end ParseError

end DiceNotation
