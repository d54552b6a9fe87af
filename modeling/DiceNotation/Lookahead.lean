import DiceNotation.TokenStream

set_option autoImplicit false

/-!
# Looking ahead in a text

The token stream of a text reads no further than it has been asked to look, and keeps in a buffer
what it has looked at.

## Main definitions

* `Lexer.nextMany` — reads several tokens, up to the end of the text or to a character that begins
  none.
* `Lookahead` — a lexer with a buffer in front of it, as a token stream.
* `Lookahead.fill` — looks ahead.

## Implementation notes

A token that is read while the buffer is empty never comes into the buffer. The list of all tokens
that came into it (`Lookahead.buffered`) therefore tells what has been looked at, which the journal
of a roll reports.
-/

namespace DiceNotation

/-- The tokens of a text, with those that have been looked at and not been read in a buffer. -/
structure Lookahead where
  /-- Where the text is read behind the buffered tokens. -/
  lexer : Lexer
  /-- The tokens that have been looked at and not been read. -/
  buffer : List Token
  /-- All tokens that ever came into the buffer, in order. -/
  buffered : Array Token

/-- Reads up to `n` tokens, and none behind the end of the text. At a character that begins no
token, the tokens in front of it are kept. -/
def Lexer.nextMany (l : Lexer) : Nat → List Token × Option UnknownToken × Lexer
  | 0 => ([], none, l)
  | n + 1 =>
    match l.next with
    | .error e => ([], some e, l)
    | .ok (t, l') =>
      if t.kind = .eof then ([t], none, l')
      else
        let (ts, e, l'') := nextMany l' n
        (t :: ts, e, l'')

namespace Lookahead

/-- The tokens that `lexer` reads. -/
def ofLexer (lexer : Lexer) : Lookahead :=
  ⟨lexer, [], #[]⟩

/-- The tokens of `text` from the place before its first character. -/
def ofText (text : List Char) : Lookahead :=
  ofLexer (Lexer.ofText text)

/-- The tokens of `text` from place `pos`. -/
def ofPlace (text : List Char) (pos : Int) : Lookahead :=
  ofLexer ⟨Cursor.place text pos, none⟩

/-- Reads tokens into the buffer until it holds `n` of them or ends with the end of the text. -/
def fill (s : Lookahead) (n : Nat) : Option UnknownToken × Lookahead :=
  if s.buffer.getLast?.any (·.kind = .eof) then (none, s)
  else
    let (ts, e, lexer) := s.lexer.nextMany (n - s.buffer.length)
    (e, ⟨lexer, s.buffer ++ ts, s.buffered ++ ts⟩)

instance : TokenStream Lookahead where
  peekNth s n :=
    match s.fill (n + 1) with
    | (some e, s') => (.error e, s')
    | (none, s') =>
      match (s'.buffer[n]?).or s'.buffer.getLast? with
      | some t => (.ok t, s')
      | none => (.ok (Token.eof s'.lexer.cursor.pos), s')
  next s :=
    match s.buffer with
    | t :: ts => (.ok t, { s with buffer := ts })
    | [] =>
      match s.lexer.next with
      | .ok (t, lexer) => (.ok t, { s with lexer })
      | .error e => (.error e, s)
  size s := s.buffer.length + s.lexer.size

end Lookahead

end DiceNotation
