import DiceNotation.Program
import DiceNotation.Proofs.Notation.Pieces

set_option autoImplicit false

/-!
# The grammar of texts

Which texts are programs, from single characters on. With `sp` for a space,

* program: `sp* [expr (';' sp* expr)*]`;
* expr: `term` or `term op sp* expr`, where `op` is `+` or `-`;
* term: `num` or `[num] d sp* num [mod sp*]`, where `d` is `d` or `D` and `mod` is one of `HLhle`;
* num: `['-'] digit digit* sp*`.

A number has a value that 32 bits hold, a number of dice is between 1 and 255, and dice that explode
do not have `-1`, `0` or `1` faces. A derivation records how each rule was used, so the text and the
program can be read off it.

## Main definitions

* `Grammar.Num`, `Grammar.Sign`, `Grammar.Throw`, `Grammar.Term`, `Grammar.Expr` — the rules.
* `Grammar.Derivation` — a derivation of a program.
* `Grammar.Derivation.text`, `Grammar.Derivation.program` — the text that is derived and the syntax
  trees of the derivation.

## Main results

* `Grammar.Derivation.chain` — the pieces of a derivation stand where the lexer expects them.
* `Grammar.Derivation.eq_of_program_eq` — the trees and the length of the text tell the derivation.
-/

namespace DiceNotation

namespace Grammar

/-! ## The rules -/

/-- The value of digits behind a minus or nothing. -/
def decimal (negative : Bool) (digits : List Char) : Int :=
  if negative then -(Nat.ofDigitChars 10 digits 0 : Int) else Nat.ofDigitChars 10 digits 0

/-- A number: a minus or nothing, digits, spaces. Its value has 32 bits. -/
structure Num where
  /-- Whether there is a minus. -/
  negative : Bool
  /-- The digits. -/
  digits : List Char
  /-- The number of spaces. -/
  spaces : Nat
  digits_ne_nil : digits ≠ []
  isDigit : ∀ c ∈ digits, c.isDigit = true
  inRange : -2147483648 ≤ decimal negative digits ∧ decimal negative digits ≤ 2147483647

/-- A character that units of a kind are written with, and spaces. -/
structure Sign (kind : TokenKind) where
  /-- The character. -/
  char : Char
  /-- The number of spaces. -/
  spaces : Nat
  mem : char ∈ kind.signs

/-- The value of a number. -/
def Num.value (n : Num) : Int :=
  decimal n.negative n.digits

/-- Dice: a number between 1 and 255 or nothing, the letter, the number of faces, a modifier or
nothing. -/
structure Throw where
  /-- How many dice. -/
  count : Option Num
  /-- The letter. -/
  letter : Sign .dSymbol
  /-- How many faces. -/
  faces : Num
  /-- The modifier. -/
  modifier : Option (Sign .modifier)
  count_range : ∀ n ∈ count, 1 ≤ n.value ∧ n.value ≤ 255
  faces_of_explode : ∀ m ∈ modifier, m.char = 'e' → faces.value ∉ [-1, 0, 1]

/-- A term: a number, or dice. -/
inductive Term where
  | number (n : Num)
  | dice (d : Throw)

/-- An expression: a term, or a term, an operator and an expression. -/
inductive Expr where
  | term (t : Term)
  | operation (left : Term) (operator : Sign .operator) (right : Expr)

/-- A program: spaces, and expressions with separators between them or nothing. -/
structure Derivation where
  /-- The number of spaces. -/
  spaces : Nat
  /-- The first expression, and the others behind their separators. -/
  exprs : Option (Expr × List (Sign .separator × Expr))

/-! ## The text of a derivation -/

/-- A number as a piece. -/
def Num.piece (n : Num) : Piece :=
  ⟨.number, _, n.spaces, .number n.negative n.digits_ne_nil n.isDigit⟩

/-- A character of a kind as a piece. -/
def Sign.piece {kind : TokenKind} (s : Sign kind) : Piece :=
  ⟨kind, [s.char], s.spaces, .sign s.mem⟩

/-- The pieces of dice. -/
def Throw.pieces (d : Throw) : List Piece :=
  (d.count.map Num.piece).toList ++ [d.letter.piece, d.faces.piece] ++
    (d.modifier.map Sign.piece).toList

/-- The pieces of a term. -/
def Term.pieces : Term → List Piece
  | number n => [n.piece]
  | dice d => d.pieces

/-- The pieces of an expression. -/
def Expr.pieces : Expr → List Piece
  | term t => t.pieces
  | operation left operator right => left.pieces ++ operator.piece :: right.pieces

/-- The pieces of expressions behind separators. -/
def furtherPieces : List (Sign .separator × Expr) → List Piece
  | [] => []
  | (separator, e) :: rest => separator.piece :: e.pieces ++ furtherPieces rest

namespace Derivation

/-- The pieces of a derivation, behind the spaces it begins with. -/
def pieces (d : Derivation) : List Piece :=
  match d.exprs with
  | none => []
  | some (e, rest) => e.pieces ++ furtherPieces rest

/-- The text that is derived. -/
def text (d : Derivation) : List Char :=
  List.replicate d.spaces ' ' ++ textOf d.pieces

end Derivation

/-! ## The trees of a derivation -/

/-- The value of a number as a word. -/
def Num.word (n : Num) : Int32 :=
  Int32.ofInt n.value

/-- The tree of dice whose first character stands at `pos`. -/
def Throw.node (d : Throw) (pos : Int) : Node :=
  let letter := pos + (textOf (d.count.map Num.piece).toList).length
  let faces := letter + d.letter.piece.text.length
  let modifier := faces + d.faces.piece.text.length
  .dice (d.count.map (·.piece.token pos)) (d.letter.piece.token letter) (d.faces.piece.token faces)
    (d.modifier.map (·.piece.token modifier))

/-- The tree of a term whose first character stands at `pos`. -/
def Term.node (pos : Int) : Term → Node
  | number n => .number (n.piece.token pos) n.word
  | dice d => d.node pos

/-- The tree of an expression whose first character stands at `pos`. Operations nest on the right. -/
def Expr.node (pos : Int) : Expr → Node
  | term t => t.node pos
  | operation left operator right =>
    let place := pos + (textOf left.pieces).length
    .operation (left.node pos) (operator.piece.token place)
      (right.node (place + operator.piece.text.length))

/-- The trees of expressions behind separators, the first of which stands at `pos`. -/
def furtherNodes (pos : Int) : List (Sign .separator × Expr) → List Node
  | [] => []
  | (separator, e) :: rest =>
    let first := pos + separator.piece.text.length
    e.node first :: furtherNodes (first + (textOf e.pieces).length) rest

namespace Derivation

/-- The program of a derivation: one tree for each expression, in order. -/
def program (d : Derivation) : Program :=
  ⟨match d.exprs with
    | none => []
    | some (e, rest) =>
      e.node d.spaces :: furtherNodes (d.spaces + (textOf e.pieces).length) rest⟩

end Derivation

/-! ## Pieces that stand where the lexer expects them -/

/-- Pieces that form an operand: they can stand where an operand can stand, and no operand can stand
behind them. -/
def IsOperand (ps : List Piece) : Prop :=
  ∀ previous, Lexer.startsOperand previous = true →
    Chain previous ps ∧ Lexer.startsOperand (lastKind previous ps) = false

/-- The pieces of a term form an operand. -/
theorem Term.isOperand (t : Term) : IsOperand t.pieces := by
  intro previous h
  have hnumber : Lexer.startsOperand (some .number) = false := rfl
  have hmodifier : Lexer.startsOperand (some .modifier) = false := rfl
  have hletter : Lexer.startsOperand (some .dSymbol) = true := rfl
  cases t with
  | number n => simp [pieces, Chain, lastKind, Piece.Fits, Num.piece, hnumber, h]
  | dice d =>
    obtain ⟨count, letter, faces, modifier, _, _⟩ := d
    cases count <;> cases modifier <;>
      simp [pieces, Throw.pieces, Chain, lastKind, Piece.Fits, Num.piece, Sign.piece, hnumber,
        hmodifier, hletter, h]

/-- The pieces of an expression form an operand.

**Proof sketch.** Induction along the expression. No operand can stand behind the left operand of an
operation, so the operator is read there; and behind an operator an operand can stand. -/
theorem Expr.isOperand (e : Expr) : IsOperand e.pieces := by
  induction e with
  | term t => exact t.isOperand
  | operation left operator right ih =>
    intro previous h
    obtain ⟨hleft, hlast⟩ := left.isOperand previous h
    obtain ⟨hright, hend⟩ := ih (some .operator) rfl
    have hfits : operator.piece.Fits (lastKind previous left.pieces) := by
      simp [Piece.Fits, Sign.piece, hlast]
    rw [pieces, chain_append, lastKind_append]
    exact ⟨⟨hleft, hfits, hright⟩, hend⟩

/-- Expressions behind separators can stand behind an expression. -/
theorem chain_furtherPieces {previous : Option TokenKind}
    (rest : List (Sign .separator × Expr)) : Chain previous (furtherPieces rest) := by
  induction rest generalizing previous with
  | nil => trivial
  | cons r rest ih =>
    obtain ⟨separator, e⟩ := r
    have hfits : separator.piece.Fits previous := by simp [Piece.Fits, Sign.piece]
    exact ⟨hfits, chain_append.2 ⟨(e.isOperand (some .separator) rfl).1, ih⟩⟩

/-- The pieces of a derivation stand where the lexer expects them. -/
theorem Derivation.chain (d : Derivation) : Chain none d.pieces := by
  unfold pieces
  cases d.exprs with
  | none => trivial
  | some r => exact chain_append.2 ⟨(r.1.isOperand none rfl).1, chain_furtherPieces r.2⟩

/-! ## What the trees tell -/

/-- The piece of a number tells the number. -/
theorem Num.piece_inj {n m : Num} (h : n.piece = m.piece) : n = m := by
  obtain ⟨negative, digits, spaces, hne, hdigits, _⟩ := n
  obtain ⟨negative', digits', spaces', hne', hdigits', _⟩ := m
  obtain ⟨hchars, rfl⟩ : (if negative then ['-'] else []) ++ digits =
      (if negative' then ['-'] else []) ++ digits' ∧ spaces = spaces' := by
    simpa [piece] using h
  have hminus : ∀ ds : List Char, (∀ c ∈ ds, c.isDigit = true) → '-' ∉ ds := by
    intro ds hds hmem
    exact absurd (hds '-' hmem) (by decide)
  cases negative <;> cases negative'
  case false.false | true.true =>
    obtain rfl : digits = digits' := by simpa using hchars
    rfl
  case true.false =>
    have hds' : '-' :: digits = digits' := by simpa using hchars
    exact absurd (hds' ▸ List.mem_cons_self) (hminus digits' hdigits')
  case false.true =>
    have hds : digits = '-' :: digits' := by simpa using hchars
    exact absurd (hds ▸ List.mem_cons_self) (hminus digits hdigits)

/-- The piece of a character tells the character and the spaces behind it. -/
theorem Sign.piece_inj {kind : TokenKind} {s r : Sign kind} (h : s.piece = r.piece) : s = r := by
  obtain ⟨c, n, _⟩ := s
  obtain ⟨c', n', _⟩ := r
  obtain ⟨rfl, rfl⟩ : c = c' ∧ n = n' := by simpa [piece] using h
  rfl

/-- Tokens that may be missing tell the parts that they come from. -/
theorem map_token_inj {α : Type} {f : α → Piece} (hf : ∀ a b, f a = f b → a = b) {o o' : Option α}
    {m n : Int} (h : o.map (fun a => (f a).token m) = o'.map (fun a => (f a).token n)) : o = o' := by
  cases o with
  | none =>
    cases o' with
    | none => rfl
    | some b => simp at h
  | some a =>
    cases o' with
    | none => simp at h
    | some b =>
      obtain ⟨hab, -⟩ := Piece.token_inj (Option.some.inj h)
      rw [hf a b hab]

/-- The tree of dice tells how they are written, and their place. -/
theorem Throw.node_inj {d d' : Throw} {m n : Int} (h : d.node m = d'.node n) : d = d' ∧ m = n := by
  obtain ⟨count, letter, faces, modifier, _, _⟩ := d
  obtain ⟨count', letter', faces', modifier', _, _⟩ := d'
  simp only [node, Node.dice.injEq] at h
  obtain ⟨hcount, hletter, hfaces, hmodifier⟩ := h
  obtain ⟨hletter', hplace⟩ := Piece.token_inj hletter
  obtain ⟨hfaces', -⟩ := Piece.token_inj hfaces
  obtain rfl := map_token_inj (fun _ _ => Num.piece_inj) hcount
  obtain rfl := Sign.piece_inj hletter'
  obtain rfl := Num.piece_inj hfaces'
  obtain rfl := map_token_inj (fun _ _ => Sign.piece_inj) hmodifier
  exact ⟨rfl, by omega⟩

/-- The tree of a term tells how it is written, and its place. -/
theorem Term.node_inj {t t' : Term} {m n : Int} (h : t.node m = t'.node n) : t = t' ∧ m = n := by
  cases t with
  | number a =>
    cases t' with
    | number b =>
      obtain ⟨hab, hplace⟩ := Piece.token_inj (Node.number.inj h).1
      rw [Num.piece_inj hab]
      exact ⟨rfl, hplace⟩
    | dice d => simp [node, Throw.node] at h
  | dice d =>
    cases t' with
    | number b => simp [node, Throw.node] at h
    | dice d' =>
      obtain ⟨rfl, hplace⟩ := Throw.node_inj h
      exact ⟨rfl, hplace⟩

/-- The tree of a term is no operation. -/
theorem Term.node_ne_operation {t : Term} {pos : Int} {left right : Node} {operator : Token} :
    t.node pos ≠ .operation left operator right := by
  cases t <;> simp [node, Throw.node]

/-- The tree of an expression tells how it is written, and its place.

**Proof sketch.** Induction along the expression. The left operands of two equal operations are
written alike and the operators are, so the right operands stand at the same place. -/
theorem Expr.node_inj {e e' : Expr} {m n : Int} (h : e.node m = e'.node n) : e = e' ∧ m = n := by
  induction e generalizing e' m n with
  | term t =>
    cases e' with
    | term t' =>
      obtain ⟨rfl, hplace⟩ := Term.node_inj h
      exact ⟨rfl, hplace⟩
    | operation => exact absurd h Term.node_ne_operation
  | operation left operator right ih =>
    cases e' with
    | term t' => exact absurd h.symm Term.node_ne_operation
    | operation left' operator' right' =>
      obtain ⟨hleft, hoperator, hright⟩ := Node.operation.inj h
      obtain ⟨rfl, rfl⟩ := Term.node_inj hleft
      obtain ⟨hpiece, -⟩ := Piece.token_inj hoperator
      obtain rfl := Sign.piece_inj hpiece
      obtain ⟨rfl, -⟩ := ih hright
      exact ⟨rfl, rfl⟩

/-- A separator is told by the length of its piece. -/
theorem separator_eq {s s' : Sign .separator} (h : s.piece.text.length = s'.piece.text.length) :
    s = s' := by
  obtain ⟨c, n, hc⟩ := s
  obtain ⟨c', n', hc'⟩ := s'
  obtain rfl := List.mem_singleton.1 hc
  obtain rfl := List.mem_singleton.1 hc'
  obtain rfl : n = n' := by simpa [Sign.piece, Piece.text] using h
  rfl

/-- The trees of expressions behind separators tell how the expressions and separators are
written. -/
theorem furtherNodes_inj {rest rest' : List (Sign .separator × Expr)} {pos : Int}
    (h : furtherNodes pos rest = furtherNodes pos rest') : rest = rest' := by
  induction rest generalizing rest' pos with
  | nil =>
    cases rest' with
    | nil => rfl
    | cons => simp [furtherNodes] at h
  | cons r rest ih =>
    obtain ⟨separator, e⟩ := r
    cases rest' with
    | nil => simp [furtherNodes] at h
    | cons r' rest' =>
      obtain ⟨separator', e'⟩ := r'
      obtain ⟨he, hrest⟩ := List.cons.inj h
      obtain ⟨rfl, hplace⟩ := Expr.node_inj he
      obtain rfl : separator = separator' := separator_eq (by omega)
      rw [ih hrest]

/-- The trees and the length of the text tell the derivation. -/
theorem Derivation.eq_of_program_eq {d d' : Derivation} (h : d.program = d'.program)
    (htext : d.text.length = d'.text.length) : d = d' := by
  obtain ⟨spaces, exprs⟩ := d
  obtain ⟨spaces', exprs'⟩ := d'
  have hitems := congrArg Program.items h
  cases exprs with
  | none =>
    cases exprs' with
    | none =>
      obtain rfl : spaces = spaces' := by simpa [text, pieces] using htext
      rfl
    | some r' => simp [program] at hitems
  | some r =>
    cases exprs' with
    | none => simp [program] at hitems
    | some r' =>
      obtain ⟨e, rest⟩ := r
      obtain ⟨e', rest'⟩ := r'
      obtain ⟨he, hrest⟩ := List.cons.inj hitems
      obtain ⟨rfl, hplace⟩ := Expr.node_inj he
      obtain rfl : spaces = spaces' := Int.ofNat.inj hplace
      rw [furtherNodes_inj hrest]

end Grammar

end DiceNotation
