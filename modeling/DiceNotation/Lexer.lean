import DiceNotation.Cursor
import DiceNotation.Symbol
import DiceNotation.Token

set_option autoImplicit false

/-!
# Reading one token

## Main definitions

* `Lexer` — a cursor, and the kind of the token read last.
* `Lexer.kindOf?` — which kind of token a character begins.
* `Lexer.next` — reads the token at the cursor.

## Implementation notes

A minus in front of a digit begins a number wherever an operand can stand. Directly behind a number
or a modifier no operand can stand, so there it subtracts: `1d4-2` has four tokens.
-/

namespace DiceNotation

/-- A character that begins no token. -/
structure UnknownToken where
  /-- The character. -/
  char : Char
  /-- Its place. -/
  position : Int
  deriving DecidableEq, Repr

/-- The state of reading a text token by token. -/
structure Lexer where
  /-- Where the next token begins. -/
  cursor : Cursor
  /-- The kind of the token read last, start and end of the text apart. -/
  previous : Option TokenKind

namespace Lexer

/-- Reads `text` from the place before its first character. -/
def ofText (text : List Char) : Lexer :=
  ⟨Cursor.start text, none⟩

/-- An operand can stand behind a token of this kind. -/
def startsOperand : Option TokenKind → Bool
  | some .number => false
  | some .modifier => false
  | _ => true

/-- The kind of token that begins with `c`, behind a token of kind `previous` and in front of the
character `ahead`. -/
def kindOf? (previous : Option TokenKind) (c : Char) (ahead : Option Char) : Option TokenKind :=
  if c.isDigit then some .number
  else if c = '-' ∧ startsOperand previous ∧ ahead.any Char.isDigit then some .number
  else if (Operator.ofChar? c).isSome then some .operator
  else if c = 'd' ∨ c = 'D' then some .dSymbol
  else if (Modifier.ofChar? c).isSome then some .modifier
  else if c = ';' then some .separator
  else none

/-- The start of the text: one step with the spaces behind it. -/
def startToken (l : Lexer) : Token × Lexer :=
  let (spaces, cursor) := l.cursor.consume.2.takeWhile (· == ' ')
  let endPos := if 0 < cursor.pos then cursor.pos - 1 else -1
  (Token.sofWith (String.ofList spaces) endPos, { l with cursor })

/-- The token of a known kind: its first character, for a number the digits behind it, and the
spaces behind these. -/
def tokenOf (l : Lexer) (kind : TokenKind) : Token × Lexer :=
  let (first, afterFirst) := l.cursor.consume
  let (digits, afterDigits) :=
    if kind = .number then afterFirst.takeWhile Char.isDigit else ([], afterFirst)
  let (spaces, cursor) := afterDigits.takeWhile (· == ' ')
  (⟨kind, String.ofList (first.toList ++ digits ++ spaces), l.cursor.pos, cursor.pos - 1⟩,
    ⟨cursor, some kind⟩)

/-- The token at the cursor and the state behind it. At the end of the text this is the end token
again and again; a character that begins no token is not passed. -/
def next (l : Lexer) : Except UnknownToken (Token × Lexer) :=
  if l.cursor.isStart then .ok l.startToken
  else
    match l.cursor.peek with
    | none => .ok (Token.eof l.cursor.pos, l)
    | some c =>
      match kindOf? l.previous c (l.cursor.peekNth 1) with
      | none => .error ⟨c, l.cursor.pos⟩
      | some kind => .ok (l.tokenOf kind)

/-- A bound for the number of tokens up to the first end of the text: each token in front of it
takes at least one character, or one step before the text. -/
def size (l : Lexer) : Nat :=
  (-l.cursor.pos).toNat + l.cursor.rest.length + 1

end Lexer

end DiceNotation
