import DiceNotation.Proofs.Meaning.Writable

set_option autoImplicit false

/-!
# What derivations stand for

The expressions that a text stands for are told by its derivation, rule by rule. Neither spaces nor
the place in the text play a part. So the meaning of a text can be reasoned about without tokens and
trees.

## Main definitions

* `Grammar.Throw.dice`, `Grammar.Expr.meaning` — the dice and the expression that rules stand for.
* `Grammar.Derivation.rolls` — the expressions of a derivation.

## Main results

* `Grammar.Expr.expression_node` — the tree of an expression stands for its meaning.
* `Rolls.ofText_eq_ok_iff` — the expressions of a text are those of its derivation.
-/

namespace DiceNotation

namespace Grammar

/-! ## Units -/

/-- A number of dice. -/
def Num.count (n : Num) : UInt8 :=
  UInt8.ofNat n.value.toNat

/-- A character of modifiers stands for one. -/
theorem Sign.isSome_modifier (s : Sign .modifier) : (Modifier.ofChar? s.char).isSome :=
  TokenKind.mem_signs_modifier_iff.1 s.mem

/-- A character of operators stands for one. -/
theorem Sign.isSome_operator (s : Sign .operator) : (Operator.ofChar? s.char).isSome :=
  TokenKind.mem_signs_operator_iff.1 s.mem

/-- The modifier that a character stands for. -/
def Sign.modifier (s : Sign .modifier) : Modifier :=
  (Modifier.ofChar? s.char).get s.isSome_modifier

/-- The operator that a character stands for. -/
def Sign.operator (s : Sign .operator) : Operator :=
  (Operator.ofChar? s.char).get s.isSome_operator

/-- The token of a number of dice stands for it. -/
theorem Num.count_token {n : Num} (h : 1 ≤ n.value ∧ n.value ≤ 255) (pos : Int) :
    (n.piece.token pos).count = .ok n.count := by
  obtain ⟨value, hvalue, hrange⟩ := (n.isCount_iff pos).2 h
  obtain rfl := hvalue.unique (n.isNumber_token pos)
  rw [hvalue.count_eq hrange.1 hrange.2, n.toInt_word]
  rfl

/-- The token of a modifier stands for it. -/
theorem Sign.modifier_token (s : Sign .modifier) (pos : Int) :
    (s.piece.token pos).modifier = .ok s.modifier :=
  Token.modifier_eq_ok (by rw [Piece.lexeme_token, String.toList_ofList]; rfl)
    (Option.some_get _).symm

/-- The token of an operator stands for it. -/
theorem Sign.operator_token (s : Sign .operator) (pos : Int) :
    (s.piece.token pos).operator = .ok s.operator :=
  Token.operator_eq_ok (by rw [Piece.lexeme_token, String.toList_ofList]; rfl)
    (Option.some_get _).symm

/-! ## Expressions -/

/-- The dice that are written: one die if there is no number, summing if there is no modifier. -/
def Throw.dice (d : Throw) : Dice where
  number := d.count.elim 1 Num.count
  faces := d.faces.word
  modifier := d.modifier.elim .none Sign.modifier

/-- What a term stands for. -/
def Term.meaning : Term → Expression
  | number n => .constant n.word
  | dice d => .dice d.dice

/-- What an expression stands for. -/
def Expr.meaning : Expr → Expression
  | term t => t.meaning
  | operation left operator right => .operation operator.operator left.meaning right.meaning

/-- The tree of dice stands for the dice that are written. -/
theorem Throw.expression_node (d : Throw) (pos : Int) :
    (d.node pos).expression = .ok (.dice d.dice) := by
  have hnumber : (d.count.map (·.piece.token pos)).elim (.ok 1) Token.count = .ok d.dice.number := by
    cases hcount : d.count with
    | none => simp [dice, hcount]
    | some n => simpa [dice, hcount] using Num.count_token (d.count_range n hcount) pos
  have hmode (place : Int) :
      (d.modifier.map (·.piece.token place)).elim (.ok .none) Token.modifier =
        .ok d.dice.modifier := by
    cases hmodifier : d.modifier with
    | none => simp [dice, hmodifier]
    | some s => simpa [dice, hmodifier] using s.modifier_token place
  unfold Throw.node Node.expression
  rw [Node.diceOf_eq_ok hnumber (d.faces.isNumber_token _).faces_eq (hmode _)]
  rfl

/-- The tree of a term stands for its meaning. -/
theorem Term.expression_node (t : Term) (pos : Int) : (t.node pos).expression = .ok t.meaning := by
  cases t with
  | number n => rfl
  | dice d => exact d.expression_node pos

/-- The tree of an expression stands for its meaning, wherever it stands in the text. -/
theorem Expr.expression_node (e : Expr) (pos : Int) : (e.node pos).expression = .ok e.meaning := by
  induction e generalizing pos with
  | term t => exact t.expression_node pos
  | operation left operator right ih =>
    exact Node.operation_expression_eq_ok (left.isTerminal_node pos).isOperation_eq_false
      (left.expression_node pos) (ih _) (operator.operator_token _)

/-- The trees of expressions behind separators stand for their meanings. -/
theorem map_expression_furtherNodes (rest : List (Sign .separator × Expr)) (pos : Int) :
    (furtherNodes pos rest).map Node.expression = rest.map fun r => .ok r.2.meaning := by
  induction rest generalizing pos with
  | nil => rfl
  | cons r rest ih => rw [furtherNodes, List.map_cons, List.map_cons, Expr.expression_node, ih]

/-! ## Programs -/

namespace Derivation

/-- The expressions of a derivation, in order. -/
def rolls (d : Derivation) : Rolls :=
  match d.exprs with
  | none => []
  | some (e, rest) => e.meaning :: rest.map fun r => r.2.meaning

/-- The program of a derivation stands for the expressions of the derivation. -/
theorem rolls_program (d : Derivation) : d.program.rolls = .ok d.rolls := by
  obtain ⟨spaces, exprs⟩ := d
  refine mapM_eq_ok.2 ?_
  cases exprs with
  | none => rfl
  | some r =>
    simp only [program, rolls, List.map_cons, Expr.expression_node, map_expression_furtherNodes,
      List.map_map]
    rfl

end Derivation

end Grammar

/-- The expressions of a text are those of its derivation. -/
theorem Rolls.ofText_eq_ok_iff {text : String} {es : Rolls} :
    ofText text = .ok es ↔ ∃ d : Grammar.Derivation, d.text = text.toList ∧ d.rolls = es := by
  constructor
  · intro h
    obtain ⟨prog, hparse⟩ := exists_parse_of_ofText h
    obtain ⟨d, htext, rfl⟩ := Grammar.exists_derivation_of_parse hparse
    have hrolls := ofText_eq_ok hparse d.rolls_program
    exact ⟨d, htext, Except.ok.inj (hrolls.symm.trans h)⟩
  · rintro ⟨d, htext, rfl⟩
    exact ofText_eq_ok (d.parse_text htext) d.rolls_program

end DiceNotation
