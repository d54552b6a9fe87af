import DiceNotation.Lexer

set_option autoImplicit false

/-!
# Token streams

A token stream can be looked into at any distance before its tokens are read. Looking may change
how the stream is represented, but an answer may also be a character that begins no token.

## Main definitions

* `TokenStream` — the two operations of a stream, and a bound for its length.
* `TokenStream.peek`, `TokenStream.nextNth` — the operations derived from them.
* `TokenStream.Query`, `TokenStream.answers` — a stream under a sequence of operations.
* `FixedStream` — the stream of a given nonempty list, whose last item is repeated for ever.
-/

namespace DiceNotation

/-- What is met at a place of a stream: a token, or a character that begins none. -/
abbrev Item := Except UnknownToken Token

/-- Tokens that can be looked at before they are read. -/
class TokenStream (σ : Type) where
  /-- The item `n` places ahead, without reading anything. -/
  peekNth : σ → Nat → Item × σ
  /-- Reads the next item. -/
  next : σ → Item × σ
  /-- A bound for the number of items in front of the place from which on the stream only repeats
  itself. -/
  size : σ → Nat

namespace TokenStream

variable {σ : Type} [TokenStream σ]

/-- The next item, without reading it. -/
def peek (s : σ) : Item × σ :=
  peekNth s 0

/-- Reads past `n` tokens and then the next item; stops at the first item that is no token. -/
def nextNth (s : σ) : Nat → Item × σ
  | 0 => next s
  | n + 1 =>
    match next s with
    | (.ok _, s') => nextNth s' n
    | (.error e, s') => (.error e, s')

/-- An operation on a stream. -/
inductive Query where
  | peek
  | peekNth (n : Nat)
  | next
  | nextNth (n : Nat)
  deriving DecidableEq, Repr

/-- What a stream answers to an operation. -/
def answer (s : σ) : Query → Item × σ
  | .peek => peek s
  | .peekNth n => peekNth s n
  | .next => next s
  | .nextNth n => nextNth s n

/-- What a stream answers to operations one after the other. -/
def answers (s : σ) : List Query → List Item
  | [] => []
  | q :: qs => (answer s q).1 :: answers (answer s q).2 qs

end TokenStream

/-! ## Streams of a given list -/

/-- The stream of the items of a nonempty list. Its last item is repeated for ever, and an item
that is no token is never passed. -/
structure FixedStream where
  /-- The items. -/
  items : List Item
  items_ne_nil : items ≠ []
  /-- How many tokens have been read. -/
  cursor : Nat

namespace FixedStream

/-- The stream in front of the first item. -/
def ofItems (items : List Item) (h : items ≠ []) : FixedStream :=
  ⟨items, h, 0⟩

/-- The item at place `i`, or the last one. -/
def item (s : FixedStream) (i : Nat) : Item :=
  s.items.get ⟨min i (s.items.length - 1), by
    have := List.length_pos_iff.2 s.items_ne_nil
    omega⟩

/-- The item `n` places ahead. -/
def ahead (s : FixedStream) (n : Nat) : Item :=
  s.item (s.cursor + n)

instance : TokenStream FixedStream where
  peekNth s n := (s.ahead n, s)
  next s :=
    match s.ahead 0 with
    | .ok t => (.ok t, { s with cursor := s.cursor + 1 })
    | .error e => (.error e, s)
  size s := s.items.length - s.cursor

end FixedStream

end DiceNotation
