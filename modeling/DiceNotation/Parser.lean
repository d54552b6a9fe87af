import DiceNotation.Lookahead
import DiceNotation.ParseError
import DiceNotation.Program

set_option autoImplicit false

/-!
# Parsing

A recursive descent over a token stream, for the grammar

* program: start, expressions with separators between them or nothing, end;
* expression: an operation or a terminal;
* operation: a terminal, an operator, an expression;
* terminal: dice or a number;
* dice: a number or nothing, the letter, a number, a modifier or nothing.

## Main definitions

* `Parser` — a token stream and the token read last; it outlives a failed attempt.
* `Parse` — a step of parsing: it may fail, and it may give up at a limit.
* `Parser.program` — the grammar above, with at most `limit` operations or separators in a row.
* `Parser.parse` — the same with a limit that is never reached.

## Implementation notes

What comes is found by looking ahead: an operation, if one of the four tokens behind the next one is
an operator of the same expression; dice, if one of the next two tokens is the letter. A number
that is missing or too large is reported behind the token read before it, all else at the token
that does not fit.

A token stream repeats its last item for ever, so recursion over it needs a limit. Each operation
and each separator takes tokens that differ, so the number of items ahead is such a limit.
-/

namespace DiceNotation

/-! ## Steps of parsing -/

/-- A token stream, and the token read from it last. -/
structure Parser (σ : Type) where
  /-- The tokens ahead. -/
  tokens : σ
  /-- The token read last. -/
  last : Option Token

/-- A step of parsing. It yields nothing if it gave up at a limit. The tokens that a failed step
has read stay read. -/
abbrev Parse (σ α : Type) :=
  ExceptT ParseError (StateT (Parser σ) Option) α

/-- What a step does that consists of two: the second one goes on where the first one stopped, unless
that one failed or gave up. -/
theorem Parse.bind_apply {σ α β : Type} (x : Parse σ α) (f : α → Parse σ β) (p : Parser σ) :
    (x >>= f) p = match x p with
      | some (.ok a, p') => f a p'
      | some (.error e, p') => some (.error e, p')
      | none => none := by
  show StateT.bind x _ p = _
  unfold StateT.bind
  rcases x p with _ | ⟨_ | _, _⟩ <;> rfl

/-- A step that only yields a value reads nothing. -/
theorem Parse.pure_apply {σ α : Type} (a : α) (p : Parser σ) :
    (pure a : Parse σ α) p = some (.ok a, p) :=
  rfl

namespace Parser

variable {σ : Type} [TokenStream σ]

/-- The step fails. -/
def fail {α : Type} (e : ParseError) : Parse σ α :=
  fun p => some (.error e, p)

/-- The token does not fit where it stands. -/
def misfit {α : Type} (token : Token) (cause : Misfit) : Parse σ α :=
  fail (.misplaced (SyntaxError.atToken token cause))

/-- The step gives up. -/
def giveUp {α : Type} : Parse σ α :=
  fun _ => none

/-- The token `n` places ahead. -/
def peekNth (n : Nat) : Parse σ Token := fun p =>
  let (item, tokens) := TokenStream.peekNth p.tokens n
  some (item.mapError .unknownToken, { p with tokens })

/-- The token `n` places ahead is of kind `kind`. -/
def isAt (n : Nat) (kind : TokenKind) : Parse σ Bool := do
  return (← peekNth n).kind = kind

/-- The next token is of kind `kind`. -/
def nextIs (kind : TokenKind) : Parse σ Bool :=
  isAt 0 kind

/-- Reads the next token. -/
def advance : Parse σ Token := fun p =>
  match TokenStream.next p.tokens with
  | (.ok t, tokens) => some (.ok t, ⟨tokens, some t⟩)
  | (.error e, tokens) => some (.error (.unknownToken e), { p with tokens })

/-- Reads the next token, which has to be of kind `kind`. -/
def expect (kind : TokenKind) (cause : Misfit) : Parse σ Token := do
  let token ← advance
  if token.kind = kind then return token else misfit token cause

/-- The place of the last character read, or the place before the text. -/
def lastPos : Parse σ Int := fun p =>
  some (.ok (p.last.elim (-1) Token.endPos), p)

/-! ## Terminals -/

/-- A number that 32 bits hold. -/
def number : Parse σ (Token × Int32) := do
  let position ← lastPos
  let token ← advance
  match if token.kind = .number then Numeral.int32? token.lexeme else none with
  | some value => return (token, value)
  | none => fail (.misplaced ⟨token, .notNumber, position⟩)

/-- The number of dice, between 1 and 255. -/
def times : Parse σ Token := do
  let (token, value) ← number
  if 1 ≤ value ∧ value ≤ 255 then return token else misfit token (.countOutOfRange value)

/-- The modifier of dice with `faces` faces. Its first character tells which one it is. -/
def modifier (faces : Int32) : Parse σ Token := do
  let token ← advance
  match token.lexeme.toList.head?.bind Modifier.ofChar? with
  | none => misfit token .notModifier
  | some .explode =>
    if -1 ≤ faces ∧ faces ≤ 1 then misfit token (.explodingFaces faces) else return token
  | some _ => return token

/-- Dice. -/
def dice : Parse σ Node := do
  let count ← if ← nextIs .number then some <$> times else pure none
  let dSymbol ← expect .dSymbol .notDSymbol
  let (faces, value) ← number
  let mode ← if ← nextIs .modifier then some <$> modifier value else pure none
  return .dice count dSymbol faces mode

/-- Dice, if the letter is one of the next two tokens, and else a number. -/
def terminal : Parse σ Node := do
  let diceAhead ← if ← isAt 0 .dSymbol then pure true else isAt 1 .dSymbol
  if diceAhead then dice
  else
    let (token, value) ← number
    return .number token value

/-! ## Expressions -/

/-- Whether an operator comes before the next separator or the end, at one of the places from `n` on
that are `count` in number. -/
def operatorWithin (n : Nat) : Nat → Parse σ Bool
  | 0 => return false
  | count + 1 => do
    match (← peekNth n).kind with
    | .operator => return true
    | .separator | .eof => return false
    | _ => operatorWithin (n + 1) count

/-- Whether an operator of the current expression is one of the four tokens behind the next. -/
def operatorAhead : Parse σ Bool :=
  operatorWithin 1 4

/-- An operation, if there is an operator ahead, and else a terminal. -/
def expression : Nat → Parse σ Node
  | 0 => giveUp
  | limit + 1 => do
    if ← operatorAhead then
      let left ← terminal
      let operator ← expect .operator .notOperator
      let right ← expression limit
      return .operation left operator right
    else terminal

/-- The expressions behind separators, up to a token that is no separator. Each has to be followed
by another separator or by the end. -/
def furtherExpressions (limit : Nat) : Nat → Parse σ (List Node)
  | 0 => giveUp
  | n + 1 => do
    if ← nextIs .separator then
      let _ ← advance
      let item ← expression limit
      let token ← peekNth 0
      if token.kind ≠ .separator ∧ token.kind ≠ .eof then misfit token .notListEnd
      else
        let items ← furtherExpressions limit n
        return item :: items
    else return []

/-- Expressions with separators between them, or nothing. -/
def expressions (limit : Nat) : Parse σ (List Node) := do
  if ← nextIs .eof then return []
  else
    let item ← expression limit
    let items ← furtherExpressions limit limit
    return item :: items

/-- A program. -/
def program (limit : Nat) : Parse σ Program := do
  let _ ← expect .sof .notSof
  let items ← expressions limit
  let _ ← expect .eof .notEof
  return ⟨items⟩

/-! ## Parsing a stream -/

/-- A parser in front of a stream. -/
def ofStream (tokens : σ) : Parser σ :=
  ⟨tokens, none⟩

/-- A limit for operations and separators in a row. -/
def limit (p : Parser σ) : Nat :=
  TokenStream.size p.tokens + 1

/-- Parses a program at the place where the parser stands. The limit is large enough, so parsing
never gives up. -/
def parse (p : Parser σ) : Except ParseError Program × Parser σ :=
  (program p.limit p).getD (.ok ⟨[]⟩, p)

/-- Parses `n` times in a row. -/
def parseRepeatedly (p : Parser σ) : Nat → List (Except ParseError Program)
  | 0 => []
  | n + 1 => p.parse.1 :: p.parse.2.parseRepeatedly n

end Parser

/-- The program of a text. -/
def parse (text : String) : Except ParseError Program :=
  (Parser.ofStream (Lookahead.ofText text.toList)).parse.1

end DiceNotation
