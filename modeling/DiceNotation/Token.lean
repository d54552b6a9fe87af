import DiceNotation.Text.Quoted

set_option autoImplicit false

/-!
# Tokens

A token is a unit of the notation together with its place in the text. Spaces behind a unit
belong to its token, so the tokens of a text cover the text without gaps.

## Main definitions

* `TokenKind` — what a token is.
* `Token` — kind, content and the places of the first and the last character.
* `Token.lexeme` — the content without the spaces behind it.
-/

namespace DiceNotation

/-- What a token is. -/
inductive TokenKind where
  /-- The start of the text, with the spaces the text begins with. -/
  | sof
  /-- An integer, possibly with a minus in front. -/
  | number
  /-- `d` or `D`, between the count and the faces of some dice. -/
  | dSymbol
  /-- One of `H`, `L`, `h`, `l` and `e`. -/
  | modifier
  /-- `+` or `-`. -/
  | operator
  /-- `;` -/
  | separator
  /-- The end of the text. -/
  | eof
  deriving DecidableEq, Repr, Inhabited

namespace TokenKind

/-- All kinds, in the order in which they may first appear in a text. -/
def all : List TokenKind :=
  [sof, number, dSymbol, modifier, operator, separator, eof]

/-- The kind as it is named in messages. -/
def text : TokenKind → String
  | sof => "SOF"
  | number => "Number"
  | dSymbol => "DSymbol"
  | modifier => "Modifier"
  | operator => "Operator"
  | separator => "ExpressionSeparator"
  | eof => "EOF"

/-- The name of a kind in data. -/
def name : TokenKind → String
  | sof => "Sof"
  | eof => "Eof"
  | k => k.text

end TokenKind

/-- A unit of the notation. The places count characters; the start of the text has place `-1`,
and the end of the text is one place behind the last character. -/
structure Token where
  /-- What the token is. -/
  kind : TokenKind
  /-- The characters of the token, with the spaces behind it. -/
  content : String
  /-- The place of the first character. -/
  startPos : Int
  /-- The place of the last character, a space behind the unit included. -/
  endPos : Int
  deriving DecidableEq, Repr, Inhabited

namespace Token

/-- The start of a text that begins with the spaces `content`, the last of them at `endPos`. -/
def sofWith (content : String) (endPos : Int) : Token :=
  ⟨.sof, content, -1, endPos⟩

/-- The start of a text that begins without a space. -/
def sof : Token :=
  sofWith "" (-1)

/-- The end of a text at place `pos`. -/
def eof (pos : Int) : Token :=
  ⟨.eof, "", pos, pos⟩

/-- The content without the spaces behind it. -/
def lexeme (t : Token) : String :=
  String.ofList (t.content.toList.reverse.dropWhile (· == ' ')).reverse

/-- The token as it is shown in messages: kind, quoted content and places. -/
def text (t : Token) : String :=
  t.kind.text ++ "(" ++ Quoted.text t.content ++ ") [" ++ t.startPos.repr ++ ", " ++
    t.endPos.repr ++ "]"

end Token

end DiceNotation
