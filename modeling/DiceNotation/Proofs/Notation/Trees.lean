import DiceNotation.Proofs.Notation.Derivations
import DiceNotation.Proofs.Parsing.Grammar

set_option autoImplicit false

/-!
# Derivations and their tokens

The tokens of a derivation spell its program. The other way round, if the tokens of pieces make up a
tree, the pieces come from a derivation of that tree. So the grammar of texts and the grammar of token
sequences agree, rule by rule, with their side conditions.

## Main results

* `Grammar.Num.isNumber_token`, `Grammar.exists_num` — numbers, with their values.
* `Grammar.Expr.tokens_node`, `Grammar.Expr.isExpression_node`, `Grammar.exists_expr` — expressions.
* `Grammar.Derivation.spelling` — the tokens of a derivation spell its program.
* `Grammar.exists_derivation` — a program that is spelled by the tokens of pieces has a derivation.
-/

namespace DiceNotation

namespace Grammar

/-! ## Numbers -/

/-- Digits behind a minus or nothing denote their value. -/
theorem signed?_eq_decimal (negative : Bool) {digits : List Char} (hne : digits ≠ [])
    (hdigits : ∀ c ∈ digits, c.isDigit = true) :
    Numeral.signed? ((if negative then ['-'] else []) ++ digits) =
      some (decimal negative digits) := by
  have hnatural : Numeral.natural? digits = some (Nat.ofDigitChars 10 digits 0) :=
    if_pos ⟨hne, List.all_eq_true.2 hdigits⟩
  cases negative with
  | true => simp [Numeral.signed?, hnatural, decimal]
  | false =>
    obtain ⟨c, cs, rfl⟩ := List.exists_cons_of_ne_nil hne
    have hc : c.isDigit = true := hdigits c List.mem_cons_self
    have hminus : c ≠ '-' := by rintro rfl; exact absurd hc (by decide)
    have hplus : c ≠ '+' := by rintro rfl; exact absurd hc (by decide)
    simp [Numeral.signed?, Numeral.unsigned?, hminus, hplus, hnatural, decimal]

/-- The word of a number has its value. -/
theorem Num.toInt_word (n : Num) : n.word.toInt = n.value := by
  obtain ⟨hmin, hmax⟩ := n.inRange
  apply Int32.toInt_ofInt_of_le
  · exact hmin
  · exact Int.lt_of_le_of_lt hmax (by decide)

/-- The token of a number denotes its word. -/
theorem Num.isNumber_token (n : Num) (pos : Int) : (n.piece.token pos).IsNumber n.word := by
  refine ⟨rfl, ?_⟩
  have hrange : Int32.minValue.toInt ≤ n.value ∧ n.value ≤ Int32.maxValue.toInt := n.inRange
  have hsigned : Numeral.signed? n.piece.chars = some n.value :=
    signed?_eq_decimal n.negative n.digits_ne_nil n.isDigit
  rw [Piece.lexeme_token, Numeral.int32?, String.toList_ofList, hsigned, Option.bind_some,
    if_pos hrange]
  rfl

/-- A piece whose token denotes a word is a number with that word. -/
theorem exists_num {p : Piece} {pos : Int} {value : Int32} (h : (p.token pos).IsNumber value) :
    ∃ n : Num, n.piece = p ∧ n.word = value := by
  have hkind : p.kind = .number := h.kind
  have hlexeme := h.lexeme
  rw [Piece.lexeme_token, Numeral.int32?, String.toList_ofList] at hlexeme
  obtain ⟨kind, chars, spaces, hspells⟩ := p
  cases hspells with
  | sign hc =>
    simp only at hkind
    subst hkind
    simp [TokenKind.signs] at hc
  | number negative hne hdigits =>
    simp only [signed?_eq_decimal negative hne hdigits, Option.bind_some] at hlexeme
    split_ifs at hlexeme with hrange
    exact ⟨⟨negative, _, spaces, hne, hdigits, hrange⟩, rfl, Option.some.inj hlexeme⟩

/-- The word of a number is a number of dice if its value is. -/
theorem Num.isCount_iff (n : Num) (pos : Int) :
    (n.piece.token pos).IsCount ↔ 1 ≤ n.value ∧ n.value ≤ 255 := by
  have hword : (1 ≤ n.word ∧ n.word ≤ 255) ↔ 1 ≤ n.value ∧ n.value ≤ 255 := by
    rw [Int32.le_iff_toInt_le, Int32.le_iff_toInt_le, n.toInt_word]
    rfl
  constructor
  · rintro ⟨value, hvalue, h⟩
    obtain rfl := hvalue.unique (n.isNumber_token pos)
    exact hword.1 h
  · intro h
    exact ⟨n.word, n.isNumber_token pos, hword.2 h⟩

/-! ## Modifiers -/

/-- Each character of modifiers is a modifier, and `e` is the one that explodes. -/
theorem exists_modifier {c : Char} (hc : c ∈ TokenKind.modifier.signs) :
    ∃ m, Modifier.ofChar? c = some m ∧ (m = .explode ↔ c = 'e') := by
  simp only [TokenKind.signs, List.mem_cons, List.not_mem_nil, or_false] at hc
  rcases hc with rfl | rfl | rfl | rfl | rfl
  all_goals exact ⟨_, rfl, by decide⟩

/-- The token of a modifier suits dice exactly if exploding dice show different faces. -/
theorem Sign.isModifier_iff (s : Sign .modifier) (pos : Int) (n : Num) :
    (s.piece.token pos).IsModifier n.word ↔ (s.char = 'e' → n.value ∉ [-1, 0, 1]) := by
  obtain ⟨m, hm, hexplode⟩ := exists_modifier s.mem
  have hfirst : (s.piece.token pos).lexeme.toList.head?.bind Modifier.ofChar? = some m := by
    rw [Piece.lexeme_token, String.toList_ofList]
    exact hm
  have hfaces : (-1 ≤ n.word ∧ n.word ≤ 1) ↔ n.value ∈ [-1, 0, 1] := by
    rw [Int32.le_iff_toInt_le, Int32.le_iff_toInt_le, n.toInt_word]
    simp only [List.mem_cons, List.not_mem_nil, or_false]
    change -1 ≤ n.value ∧ n.value ≤ 1 ↔ _
    omega
  constructor
  · rintro ⟨-, m', hm', h⟩ he
    obtain rfl := Option.some.inj (hfirst.symm.trans hm')
    rw [← hfaces]
    exact h (hexplode.2 he)
  · intro h
    refine ⟨rfl, m, hfirst, fun he => ?_⟩
    rw [hfaces]
    exact h (hexplode.1 he)

/-- A piece that is no number is one of the characters of its kind. -/
theorem exists_sign {p : Piece} {kind : TokenKind} (hkind : p.kind = kind)
    (hnumber : kind ≠ .number) : ∃ s : Sign kind, s.piece = p := by
  subst hkind
  obtain ⟨kind, chars, spaces, hspells⟩ := p
  cases hspells with
  | number => exact absurd rfl hnumber
  | sign hc => exact ⟨⟨_, spaces, hc⟩, rfl⟩

/-! ## Terms -/

/-- The tokens of the tree of dice are those of their pieces. -/
theorem Throw.tokens_node (d : Throw) (pos : Int) : (d.node pos).tokens = place pos d.pieces := by
  obtain ⟨count, letter, faces, modifier, _, _⟩ := d
  cases count <;> cases modifier <;>
    simp [node, pieces, Node.tokens, place, Int.add_assoc]

/-- The tokens of the tree of a term are those of its pieces. -/
theorem Term.tokens_node (t : Term) (pos : Int) : (t.node pos).tokens = place pos t.pieces := by
  cases t with
  | number n => rfl
  | dice d => exact d.tokens_node pos

/-- The tree of a term is a terminal. -/
theorem Term.isTerminal_node (t : Term) (pos : Int) : (t.node pos).IsTerminal := by
  cases t with
  | number n => exact .number (n.isNumber_token pos)
  | dice d =>
    refine .dice ?_ rfl (d.faces.isNumber_token _) ?_
    · intro t ht
      obtain ⟨n, hn, rfl⟩ := Option.map_eq_some_iff.1 ht
      exact (n.isCount_iff pos).2 (d.count_range n hn)
    · intro t ht
      obtain ⟨s, hs, rfl⟩ := Option.map_eq_some_iff.1 ht
      exact (s.isModifier_iff _ d.faces).2 (d.faces_of_explode s hs)

/-- A token that may be missing, and that is the token of a piece, comes from a part that may be
missing. -/
theorem exists_optional {α : Type} {f : α → Piece} {P : Token → Prop} {pos : Int} {ps : List Piece}
    {o : Option Token} (hf : ∀ p : Piece, P (p.token pos) → ∃ a, f a = p) (ho : ∀ t ∈ o, P t)
    (hps : place pos ps = o.toList) :
    ∃ o' : Option α, (o'.map f).toList = ps ∧ o'.map (fun a => (f a).token pos) = o := by
  cases o with
  | none =>
    cases ps with
    | nil => exact ⟨none, rfl, rfl⟩
    | cons => simp [place] at hps
  | some t =>
    obtain ⟨p, rfl, rfl⟩ := place_eq_singleton hps
    obtain ⟨a, rfl⟩ := hf p (ho _ rfl)
    exact ⟨some a, rfl, rfl⟩

/-- Pieces whose tokens make up a terminal are those of a term, which has this tree. -/
theorem exists_term {n : Node} {pos : Int} {ps : List Piece} (hn : n.IsTerminal)
    (hps : place pos ps = n.tokens) : ∃ t : Term, t.pieces = ps ∧ t.node pos = n := by
  cases hn with
  | number hvalue =>
    obtain ⟨p, rfl, rfl⟩ := place_eq_singleton hps
    obtain ⟨n, rfl, rfl⟩ := exists_num hvalue
    exact ⟨.number n, rfl, rfl⟩
  | dice htimes hd hfaces hmodifier =>
    obtain ⟨qs, ms, rfl, hqs, hms⟩ := place_eq_append hps
    obtain ⟨cs, ls, rfl, hcs, hls⟩ := place_eq_append hqs
    obtain ⟨ls, fs, rfl, hl, hfs⟩ := place_eq_append (show place _ ls = [_] ++ [_] from hls)
    obtain ⟨l, rfl, rfl⟩ := place_eq_singleton hl
    obtain ⟨f, rfl, rfl⟩ := place_eq_singleton hfs
    obtain ⟨letter, rfl⟩ := exists_sign hd (by decide)
    obtain ⟨faces, rfl, rfl⟩ := exists_num hfaces
    have hnum (p : Piece) (hp : (p.token pos).IsCount) : ∃ n : Num, n.piece = p := by
      obtain ⟨value, hvalue, -⟩ := hp
      obtain ⟨n, hnp, -⟩ := exists_num hvalue
      exact ⟨n, hnp⟩
    obtain ⟨count, rfl, rfl⟩ := exists_optional hnum htimes hcs
    obtain ⟨modifier, rfl, rfl⟩ := exists_optional
      (fun p (hp : Token.IsModifier _ faces.word) => exists_sign hp.kind (by decide)) hmodifier hms
    have hcount : ∀ n ∈ count, 1 ≤ n.value ∧ n.value ≤ 255 := by
      intro n hn
      exact (n.isCount_iff pos).1 (htimes _ (Option.map_eq_some_iff.2 ⟨n, hn, rfl⟩))
    have hexplode : ∀ m ∈ modifier, m.char = 'e' → faces.value ∉ [-1, 0, 1] := by
      intro m hm
      exact (m.isModifier_iff _ faces).1 (hmodifier _ (Option.map_eq_some_iff.2 ⟨m, hm, rfl⟩))
    refine ⟨.dice ⟨count, letter, faces, modifier, hcount, hexplode⟩, ?_, ?_⟩
    · simp [Term.pieces, Throw.pieces]
    · simp [Term.node, Throw.node, Int.add_assoc]

/-! ## Expressions -/

/-- The tokens of the tree of an expression are those of its pieces. -/
theorem Expr.tokens_node (e : Expr) (pos : Int) : (e.node pos).tokens = place pos e.pieces := by
  induction e generalizing pos with
  | term t => exact t.tokens_node pos
  | operation left operator right ih =>
    simp only [node, Node.tokens, pieces, place_append, place, left.tokens_node, ih]

/-- The tree of an expression is an expression. -/
theorem Expr.isExpression_node (e : Expr) (pos : Int) : (e.node pos).IsExpression := by
  induction e generalizing pos with
  | term t => exact .terminal (t.isTerminal_node pos)
  | operation left operator right ih => exact .operation (left.isTerminal_node pos) rfl (ih _)

/-- Pieces whose tokens make up an expression are those of an expression with this tree.

**Proof sketch.** Induction on the tree. The pieces of an operation fall into those of its left
operand, one for the operator, and those of its right operand. -/
theorem exists_expr {n : Node} {pos : Int} {ps : List Piece} (hn : n.IsExpression)
    (hps : place pos ps = n.tokens) : ∃ e : Expr, e.pieces = ps ∧ e.node pos = n := by
  induction hn generalizing pos ps with
  | terminal hn =>
    obtain ⟨t, hpieces, hnode⟩ := exists_term hn hps
    exact ⟨.term t, hpieces, hnode⟩
  | operation hleft hoperator _ ih =>
    obtain ⟨qs, rs, rfl, hqs, hrs⟩ := place_eq_append hps
    obtain ⟨os, rs, rfl, hos, hright⟩ := place_eq_append (show place _ rs = [_] ++ _ from hrs)
    obtain ⟨o, rfl, rfl⟩ := place_eq_singleton hos
    obtain ⟨operator, rfl⟩ := exists_sign hoperator (by decide)
    obtain ⟨left, rfl, rfl⟩ := exists_term hleft hqs
    obtain ⟨right, rfl, rfl⟩ := ih hright
    exact ⟨.operation left operator right, rfl, by simp [Expr.node]⟩

/-- The tokens of expressions behind separators are further expressions. -/
theorem further_furtherNodes (rest : List (Sign .separator × Expr)) (pos : Int) :
    Program.Further (furtherNodes pos rest) (place pos (furtherPieces rest)) := by
  induction rest generalizing pos with
  | nil => exact .nil
  | cons r rest ih =>
    obtain ⟨separator, e⟩ := r
    rw [furtherPieces, List.cons_append, place, place_append, ← e.tokens_node]
    exact .cons rfl (e.isExpression_node _) (ih _)

/-- Pieces whose tokens are further expressions are those of expressions behind separators. -/
theorem exists_further {ns : List Node} {ts : List Token} {pos : Int} {ps : List Piece}
    (hns : Program.Further ns ts) (hps : place pos ps = ts) :
    ∃ rest, furtherPieces rest = ps ∧ furtherNodes pos rest = ns := by
  induction hns generalizing pos ps with
  | nil =>
    cases ps with
    | nil => exact ⟨[], rfl, rfl⟩
    | cons => simp [place] at hps
  | cons hseparator hn _ ih =>
    obtain ⟨qs, rs, rfl, hqs, hrs⟩ := place_eq_append hps
    obtain ⟨ss, es, rfl, hss, hes⟩ := place_eq_append (show place _ qs = [_] ++ _ from hqs)
    obtain ⟨s, rfl, rfl⟩ := place_eq_singleton hss
    obtain ⟨separator, rfl⟩ := exists_sign hseparator (by decide)
    obtain ⟨e, rfl, rfl⟩ := exists_expr hn hes
    obtain ⟨rest, rfl, rfl⟩ := ih hrs
    exact ⟨(separator, e) :: rest, rfl, by simp [furtherNodes, Int.add_assoc]⟩

/-! ## Programs -/

/-- The tokens of a derivation spell its program. -/
theorem Derivation.spelling (d : Derivation) {start stop : Token} (hstart : start.kind = .sof)
    (hstop : stop.kind = .eof) :
    d.program.Spelling (start :: place d.spaces d.pieces ++ [stop]) := by
  refine .program hstart ?_ hstop
  unfold pieces
  cases d.exprs with
  | none => exact .nil
  | some r =>
    obtain ⟨e, rest⟩ := r
    rw [place_append, ← e.tokens_node]
    exact .cons (e.isExpression_node _) (further_furtherNodes rest _)

/-- Pieces whose tokens are the expressions of a program are those of a derivation of it. -/
theorem exists_derivation {items : List Node} {ts : List Token} {spaces : Nat} {ps : List Piece}
    (hitems : Program.Listing items ts) (hps : place spaces ps = ts) :
    ∃ d : Derivation, d.spaces = spaces ∧ d.pieces = ps ∧ d.program = ⟨items⟩ := by
  cases hitems with
  | nil =>
    cases ps with
    | nil => exact ⟨⟨spaces, none⟩, rfl, rfl, rfl⟩
    | cons => simp [place] at hps
  | cons hn hns =>
    obtain ⟨qs, rs, rfl, hqs, hrs⟩ := place_eq_append hps
    obtain ⟨e, rfl, rfl⟩ := exists_expr hn hqs
    obtain ⟨rest, rfl, rfl⟩ := exists_further hns hrs
    exact ⟨⟨spaces, some (e, rest)⟩, rfl, rfl, rfl⟩

end Grammar

end DiceNotation
