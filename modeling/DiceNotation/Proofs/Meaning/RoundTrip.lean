import DiceNotation.Proofs.Meaning.Denotations

set_option autoImplicit false

/-!
# Expressions are read back as they are written

Every expression that the notation can write has a derivation of its text, whose trees stand for the
expression. So reading the text of such expressions yields these expressions.

## Main results

* `Grammar.exists_throw`, `Grammar.exists_expr_of_writable` — derivations of dice and of expressions.
* `Rolls.exists_derivation` — a derivation of the text of expressions.
* `Rolls.ofText_text` — the text of writable expressions is read as these expressions.

## Implementation notes

A unit comes with the spaces behind it. Which spaces these are depends on what follows, so every part
of an expression is derived with any number of spaces behind it.
-/

namespace DiceNotation

namespace Grammar

/-! ## Numbers -/

/-- The digits of an integer, behind a minus if it is negative, have its value. -/
theorem decimal_toDigits (v : Int) : decimal (v < 0) (Nat.toDigits 10 v.natAbs) = v := by
  rw [decimal, Nat.ofDigitChars_toDigits (by decide) (by decide)]
  by_cases h : v < 0
  · simp only [h, decide_true, ↓reduceIte]
    omega
  · simp only [h, decide_false, Bool.false_eq_true, ↓reduceIte]
    omega

/-- An integer as a number with `n` spaces behind it. -/
def Num.ofInt (v : Int) (n : Nat) (h : -2147483648 ≤ v ∧ v ≤ 2147483647) : Num where
  negative := v < 0
  digits := Nat.toDigits 10 v.natAbs
  spaces := n
  digits_ne_nil := Nat.toDigits_ne_nil
  isDigit _ hc := Nat.isDigit_of_mem_toDigits (by decide) (by decide) hc
  inRange := by rw [decimal_toDigits]; exact h

variable {v : Int} {n : Nat} {h : -2147483648 ≤ v ∧ v ≤ 2147483647}

/-- The value of an integer as a number is the integer. -/
@[simp] theorem Num.value_ofInt : (Num.ofInt v n h).value = v :=
  decimal_toDigits v

/-- An integer as a number is written as its numeral. -/
theorem Num.chars_ofInt : (Num.ofInt v n h).piece.chars = v.repr.toList := by
  show (if decide (v < 0) then ['-'] else []) ++ Nat.toDigits 10 v.natAbs = _
  cases v with
  | ofNat m =>
    rw [show (Int.ofNat m).repr = m.repr from rfl, Nat.toList_repr]
    simp
  | negSucc m =>
    rw [show (Int.negSucc m).repr = "-" ++ (m + 1).repr from rfl, String.toList_append,
      Nat.toList_repr]
    simp

/-- The text of an integer as a number. -/
theorem Num.text_ofInt : (Num.ofInt v n h).piece.text = v.repr.toList ++ List.replicate n ' ' := by
  rw [Piece.text, chars_ofInt]
  rfl

/-- A word as a number with `n` spaces behind it. -/
def Num.ofInt32 (v : Int32) (n : Nat) : Num :=
  Num.ofInt v.toInt n ⟨v.minValue_le_toInt, v.toInt_le⟩

/-- The word of a word as a number is the word. -/
theorem Num.word_ofInt32 (v : Int32) (n : Nat) : (Num.ofInt32 v n).word = v := by
  rw [word, ofInt32, value_ofInt, Int32.ofInt_toInt]

/-- The numeral of a natural number is the one of the integer. -/
theorem repr_natCast (m : Nat) : (m : Int).repr = m.repr :=
  rfl

/-- The number of dice of a number that 8 bits hold is the number. -/
theorem Num.count_ofInt (number : UInt8)
    {h : -2147483648 ≤ (number.toNat : Int) ∧ (number.toNat : Int) ≤ 2147483647} :
    (Num.ofInt number.toNat n h).count = number := by
  rw [count, value_ofInt, Int.toNat_natCast, UInt8.ofNat_toNat]

/-! ## Dice -/

/-- A number of dice is left out if it is one, and else a number. -/
theorem exists_count {number : UInt8} (hnumber : 1 ≤ number.toNat) :
    ∃ count : Option Num, (∀ n ∈ count, 1 ≤ n.value ∧ n.value ≤ 255) ∧
      textOf (count.map Num.piece).toList =
        (if number = 1 then "" else number.toNat.repr).toList ∧
      count.elim 1 Num.count = number := by
  have hmax := number.toNat_lt
  by_cases hone : number = 1
  · subst hone
    exact ⟨none, by simp, rfl, rfl⟩
  · refine ⟨some (Num.ofInt number.toNat 0 (by omega)), ?_, ?_, Num.count_ofInt number⟩
    · simp only [Option.mem_def, Option.some.injEq, forall_eq', Num.value_ofInt]
      omega
    · simp [if_neg hone, Num.text_ofInt, repr_natCast]

/-- A modifier is its character, or nothing for a sum; spaces behind dice stand behind the modifier
if there is one, and else behind the faces. -/
theorem exists_mode (m : Modifier) (n : Nat) :
    ∃ (k : Nat) (mode : Option (Sign .modifier)), (∀ s ∈ mode, s.char = 'e' → m = .explode) ∧
      List.replicate k ' ' ++ textOf (mode.map Sign.piece).toList =
        m.text.toList ++ List.replicate n ' ' ∧
      mode.elim .none Sign.modifier = m := by
  cases hm : m.symbol with
  | none =>
    have hnone : m = .none := by cases m <;> simp [Modifier.symbol] at hm ⊢
    subst hnone
    exact ⟨n, none, by simp, by simp [Modifier.text, hm], rfl⟩
  | some c =>
    have hc : Modifier.ofChar? c = some m := Modifier.ofChar?_eq_some_iff.2 hm
    have hmem : c ∈ TokenKind.modifier.signs := by cases m <;> cases hm <;> decide
    refine ⟨0, some ⟨c, n, hmem⟩, ?_, ?_, ?_⟩
    · intro s hs he
      obtain rfl := Option.some.inj hs
      rw [show c = 'e' from he] at hc
      exact (Option.some.inj hc).symm
    · simp [Modifier.text, hm, Sign.piece, Piece.text]
    · simp [Sign.modifier, hc]

/-- Dice that can be written have a derivation of their text, with `n` spaces behind it. -/
theorem exists_throw {d : Dice} (hd : d.Writable) (n : Nat) :
    ∃ t : Throw, textOf t.pieces = d.text.toList ++ List.replicate n ' ' ∧ t.dice = d := by
  obtain ⟨count, hrange, hcount, hnumber⟩ := exists_count hd.number.1
  obtain ⟨k, mode, hexplode, hmode, hmodifier⟩ := exists_mode d.modifier n
  have hfaces : ∀ s ∈ mode, s.char = 'e' → (Num.ofInt32 d.faces k).value ∉ [-1, 0, 1] := by
    intro s hs he hmem
    rw [Num.ofInt32, Num.value_ofInt] at hmem
    refine hd.faces (hexplode s hs he) ?_
    simp only [List.mem_cons, List.not_mem_nil, or_false, ← Int32.toInt_inj] at hmem ⊢
    exact hmem
  refine ⟨⟨count, ⟨'d', 0, by decide⟩, Num.ofInt32 d.faces k, mode, hrange, hfaces⟩, ?_, ?_⟩
  · simp only [Throw.pieces, textOf_append, textOf_cons, textOf_nil, hcount, Dice.text,
      String.toList_append, Num.ofInt32, Num.text_ofInt, Numeral.ofInt32, List.append_assoc,
      List.append_nil, hmode]
    simp [Sign.piece, Piece.text]
  · rw [Throw.dice, hnumber, Num.word_ofInt32, hmodifier]

/-! ## Expressions -/

/-- A leaf has a derivation of its text, with `n` spaces behind it. -/
theorem exists_term_of_isLeaf {e : Expression} (h : e.IsLeaf) (n : Nat) :
    ∃ t : Term, textOf t.pieces = e.text.toList ++ List.replicate n ' ' ∧ t.meaning = e := by
  cases h with
  | constant value =>
    refine ⟨.number (Num.ofInt32 value n), ?_, ?_⟩
    · exact (List.append_nil _).trans Num.text_ofInt
    · rw [Term.meaning, Num.word_ofInt32]
  | dice hd =>
    obtain ⟨t, htext, rfl⟩ := exists_throw hd n
    exact ⟨.dice t, htext, rfl⟩

/-- An operator has a character with a space behind it. -/
theorem exists_operator (op : Operator) :
    ∃ s : Sign .operator, s.piece.text = op.text.toList ++ [' '] ∧ s.operator = op := by
  have hmem : op.symbol ∈ TokenKind.operator.signs := by cases op <;> decide
  refine ⟨⟨op.symbol, 1, hmem⟩, ?_, ?_⟩
  · simp [Sign.piece, Piece.text, Operator.text]
  · simp [Sign.operator, Operator.ofChar?_eq_some_iff.2 rfl]

/-- An expression that can be written has a derivation of its text, with `n` spaces behind it.

**Proof sketch.** Induction on the expression. The left operand and the operator are derived with one
space behind each of them, the right operand with the spaces behind the operation. -/
theorem exists_expr_of_writable {e : Expression} (h : e.Writable) (n : Nat) :
    ∃ x : Expr, textOf x.pieces = e.text.toList ++ List.replicate n ' ' ∧ x.meaning = e := by
  induction h with
  | leaf h =>
    obtain ⟨t, htext, hmeaning⟩ := exists_term_of_isLeaf h n
    exact ⟨.term t, htext, hmeaning⟩
  | operation op hlhs _ ih =>
    obtain ⟨left, hleft, rfl⟩ := exists_term_of_isLeaf hlhs 1
    obtain ⟨operator, hoperator, rfl⟩ := exists_operator op
    obtain ⟨right, hright, rfl⟩ := ih
    refine ⟨.operation left operator right, ?_, rfl⟩
    simp [Expr.pieces, hleft, hoperator, hright, Expression.text]

/-- Expressions that can be written have a derivation behind separators. -/
theorem exists_further_of_writable {es : Rolls} (h : ∀ e ∈ es, e.Writable) :
    ∃ rest, textOf (furtherPieces rest) = es.flatMap (fun e => "; ".toList ++ e.text.toList) ∧
      (rest.map fun r => r.2.meaning) = es := by
  induction es with
  | nil => exact ⟨[], rfl, rfl⟩
  | cons e es ih =>
    obtain ⟨x, hx, hmeaning⟩ := exists_expr_of_writable (h e List.mem_cons_self) 0
    obtain ⟨rest, htext, hmeanings⟩ := ih fun e' he' => h e' (List.mem_cons_of_mem e he')
    refine ⟨(⟨';', 1, by decide⟩, x) :: rest, ?_, by rw [List.map_cons, hmeaning, hmeanings]⟩
    rw [List.flatMap_cons, ← htext, furtherPieces, List.cons_append, textOf_cons, textOf_append, hx]
    simp [Sign.piece, Piece.text]

end Grammar

/-! ## Lists of expressions -/

namespace Rolls

/-- The text of expressions: the first one, and the others behind separators. -/
theorem toList_text_cons (e : Expression) (es : Rolls) :
    (text (e :: es)).toList =
      e.text.toList ++ es.flatMap (fun e => "; ".toList ++ e.text.toList) := by
  induction es generalizing e with
  | nil => simp [text]
  | cons e' es ih =>
    have hcons : text (e :: e' :: es) = e.text ++ "; " ++ text (e' :: es) :=
      String.intercalate_cons_cons
    rw [hcons, String.toList_append, String.toList_append, ih]
    simp

/-- Expressions that can be written have a derivation of their text, whose trees stand for them. -/
theorem exists_derivation {es : Rolls} (h : ∀ e ∈ es, e.Writable) :
    ∃ d : Grammar.Derivation, d.text = es.text.toList ∧ d.program.rolls = .ok es := by
  cases es with
  | nil => exact ⟨⟨0, none⟩, rfl, rfl⟩
  | cons e es =>
    obtain ⟨x, hx, hmeaning⟩ := Grammar.exists_expr_of_writable (h e List.mem_cons_self) 0
    obtain ⟨rest, htext, hmeanings⟩ := Grammar.exists_further_of_writable fun e' he' =>
      h e' (List.mem_cons_of_mem e he')
    refine ⟨⟨0, some (x, rest)⟩, ?_, ?_⟩
    · simp [Grammar.Derivation.text, Grammar.Derivation.pieces, toList_text_cons, hx, htext]
    · simp only [Grammar.Derivation.rolls_program, Grammar.Derivation.rolls, hmeaning, hmeanings]

/-- **Expressions are read back as they are written.** The text of any expressions that the notation
can write, with separators between them, is read as exactly these expressions.

**Proof sketch.** The text has a derivation, by induction along the list and along each expression.
So it is parsed, and its trees stand for the expressions. -/
theorem ofText_text (es : Rolls) (h : ∀ e ∈ es, e.Writable) : ofText es.text = .ok es := by
  obtain ⟨d, htext, hrolls⟩ := exists_derivation h
  exact ofText_eq_ok (d.parse_text htext) hrolls

/-- Chains with negative operands and the lowest word. -/
def sample : Rolls :=
  [.operation .sub (.constant 1)
      (.operation .add (.constant (-3)) (.dice ⟨255, -2147483648, .explode⟩)),
    .dice ⟨1, -4, .none⟩, .constant (-2147483648)]

/-- These expressions are read back. -/
theorem ofText_text_sample :
    (∀ e ∈ sample, e.Writable) ∧ ofText sample.text = .ok sample := by
  have hwritable : ∀ e ∈ sample, e.Writable := by
    intro e he
    simp only [sample, List.mem_cons, List.not_mem_nil, or_false] at he
    rcases he with rfl | rfl | rfl
    · exact .operation _ (.constant _) (.operation _ (.constant _)
        (.leaf (.dice ⟨by decide, by decide⟩)))
    · exact .leaf (.dice ⟨by decide, by decide⟩)
    · exact .leaf (.constant _)
  exact ⟨hwritable, ofText_text sample hwritable⟩

end Rolls

end DiceNotation
