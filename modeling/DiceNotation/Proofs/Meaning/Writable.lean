import DiceNotation.Proofs.Notation.Recognition
import DiceNotation.Reading

set_option autoImplicit false

/-!
# What is parsed stands for expressions

The parser and the meaning of programs check lexemes separately: the parser reads the number of dice
as a 32-bit value between 1 and 255 and looks at the first character of a modifier only, while the
meaning asks for an 8-bit value and for a single character. Whatever passes the parser passes the
meaning as well, if operators and modifiers are written with one character, as in every text.

## Main definitions

* `Expression.Writable` — the expressions that the notation can write.
* `Token.IsPlain` — an operator or a modifier is written with one character.

## Main results

* `Node.exists_expression` — the tree of an expression stands for a writable expression.
* `exists_rolls_of_parse` — a program that has been parsed stands for writable expressions.
-/

namespace DiceNotation

/-! ## Writable expressions -/

/-- Dice that the notation can write: between 1 and 255 of them, and if they explode, their faces are
not always the same. -/
structure Dice.Writable (d : Dice) : Prop where
  /-- The number of dice. -/
  number : 1 ≤ d.number.toNat ∧ d.number.toNat ≤ 255
  /-- The faces of dice that explode. -/
  faces : d.modifier = .explode → d.faces ∉ [-1, 0, 1]

namespace Expression

/-- Expressions that are no operations and that the notation can write. -/
inductive IsLeaf : Expression → Prop
  | constant (value : Int32) : IsLeaf (.constant value)
  | dice {d : Dice} (h : d.Writable) : IsLeaf (.dice d)

/-- Expressions that the notation can write: operations nest on the right. -/
inductive Writable : Expression → Prop
  | leaf {e : Expression} (h : e.IsLeaf) : Writable e
  | operation (op : Operator) {lhs rhs : Expression} (hlhs : lhs.IsLeaf) (hrhs : rhs.Writable) :
    Writable (.operation op lhs rhs)

end Expression

/-! ## Tokens -/

namespace Token

/-- An operator is written with one of its characters, and a modifier with one character. -/
structure IsPlain (t : Token) : Prop where
  /-- Operators. -/
  operator : t.kind = .operator → t.lexeme = "+" ∨ t.lexeme = "-"
  /-- Modifiers. -/
  modifier : t.kind = .modifier → t.lexeme.toList.length = 1

instance (t : Token) : Decidable t.IsPlain :=
  decidable_of_iff ((t.kind = .operator → t.lexeme = "+" ∨ t.lexeme = "-") ∧
      (t.kind = .modifier → t.lexeme.toList.length = 1))
    ⟨fun h => ⟨h.1, h.2⟩, fun h => ⟨h.operator, h.modifier⟩⟩

/-- A number between 1 and 255 is a number of dice.

**Proof sketch.** A positive number has no minus in front, so it is read as a natural number, which
fits 8 bits. -/
theorem IsNumber.count_eq {t : Token} {value : Int32} (h : t.IsNumber value) (hone : 1 ≤ value)
    (hmax : value ≤ 255) : t.count = .ok (UInt8.ofNat value.toInt.toNat) := by
  have hvalue := h.lexeme
  rw [Int32.le_iff_toInt_le] at hone hmax
  rw [Numeral.int32?, Option.bind_eq_some_iff] at hvalue
  obtain ⟨n, hsigned, hvalue⟩ := hvalue
  split_ifs at hvalue with hrange
  have hn : value.toInt = n := by
    rw [← Option.some.inj hvalue]
    exact Int32.toInt_ofInt_of_le hrange.1 (Int.lt_of_le_of_lt hrange.2 (by decide))
  have hone : 1 ≤ n := hn ▸ hone
  have hmax : n ≤ 255 := hn ▸ hmax
  have hunsigned : Numeral.unsigned? t.lexeme.toList = some n.toNat := by
    unfold Numeral.signed? at hsigned
    split at hsigned
    next cs hcs =>
      cases hm : Numeral.natural? cs with
      | none => simp [hm] at hsigned
      | some m =>
        have hneg : -(m : Int) = n := by simpa [hm] using hsigned
        omega
    next =>
      obtain ⟨m, hm, rfl⟩ := Option.map_eq_some_iff.1 hsigned
      simpa using hm
  have hfits : n.toNat < UInt8.size := by
    simp only [UInt8.size]
    omega
  simp [count, Numeral.uint8?, hunsigned, hfits, hn]

/-- A number that the parser takes for a number of dice is one. -/
theorem IsCount.exists_count {t : Token} (h : t.IsCount) :
    ∃ n : UInt8, t.count = .ok n ∧ 1 ≤ n.toNat ∧ n.toNat ≤ 255 := by
  obtain ⟨value, hvalue, hone, hmax⟩ := h
  refine ⟨_, hvalue.count_eq hone hmax, ?_⟩
  rw [Int32.le_iff_toInt_le] at hone hmax
  have hone : 1 ≤ value.toInt := hone
  have hmax : value.toInt ≤ 255 := hmax
  rw [UInt8.toNat_ofNat_of_lt' (by simp only [UInt8.size]; omega)]
  omega

/-- A number is a number of faces. -/
theorem IsNumber.faces_eq {t : Token} {value : Int32} (h : t.IsNumber value) :
    t.faces = .ok value := by
  simp [faces, h.lexeme]

/-- A token with the character of a modifier is that modifier. -/
theorem modifier_eq_ok {t : Token} {c : Char} {m : Modifier} (hc : t.lexeme.toList = [c])
    (hm : Modifier.ofChar? c = some m) : t.modifier = .ok m := by
  unfold Token.modifier singleChar
  rw [hc]
  show (Modifier.ofChar? c).elim _ _ = _
  rw [hm]
  rfl

/-- A token with the character of an operator is that operator. -/
theorem operator_eq_ok {t : Token} {c : Char} {op : Operator} (hc : t.lexeme.toList = [c])
    (hop : Operator.ofChar? c = some op) : t.operator = .ok op := by
  unfold Token.operator singleChar
  rw [hc]
  show (Operator.ofChar? c).elim _ _ = _
  rw [hop]
  rfl

/-- A modifier that suits the faces is one. -/
theorem IsModifier.exists_modifier {t : Token} {value : Int32} (h : t.IsModifier value)
    (hplain : t.IsPlain) :
    ∃ m, t.modifier = .ok m ∧ (m = .explode → value ∉ [-1, 0, 1]) := by
  obtain ⟨m, hm, hsuits⟩ := h.suits
  obtain ⟨c, hc⟩ := List.length_eq_one_iff.1 (hplain.modifier h.kind)
  rw [hc, List.head?_cons, Option.bind_some] at hm
  refine ⟨m, modifier_eq_ok hc hm, fun he hmem => hsuits he ?_⟩
  simp only [List.mem_cons, List.not_mem_nil, or_false] at hmem
  rcases hmem with rfl | rfl | rfl <;> decide

/-- An operator is one. -/
theorem IsPlain.exists_operator {t : Token} (h : t.IsPlain) (hk : t.kind = .operator) :
    ∃ op, t.operator = .ok op := by
  rcases h.operator hk with hplus | hminus
  · exact ⟨.add, operator_eq_ok (congrArg String.toList hplus) rfl⟩
  · exact ⟨.sub, operator_eq_ok (congrArg String.toList hminus) rfl⟩

end Token

/-! ## Trees -/

namespace Node

variable {n : Node}

/-- Tokens stand for dice if each of them stands for its part. -/
theorem diceOf_eq_ok {times modifier : Option Token} {faces : Token} {d : Dice}
    (hnumber : times.elim (.ok 1) Token.count = .ok d.number) (hfaces : faces.faces = .ok d.faces)
    (hmode : modifier.elim (.ok .none) Token.modifier = .ok d.modifier) :
    diceOf times faces modifier = .ok d := by
  unfold diceOf
  rw [hnumber, hmode, hfaces]
  rfl

/-- An operation stands for an operation if its left operand is none and all parts stand for
something. -/
theorem operation_expression_eq_ok {left right : Node} {operator : Token} {op : Operator}
    {lhs rhs : Expression} (hleft : left.isOperation = false) (hlhs : left.expression = .ok lhs)
    (hrhs : right.expression = .ok rhs) (hop : operator.operator = .ok op) :
    (Node.operation left operator right).expression = .ok (.operation op lhs rhs) := by
  rw [expression, hleft, hlhs, hrhs, hop]
  rfl

/-- Dice that have been read stand for dice that can be written. -/
theorem exists_diceOf {times modifier : Option Token} {faces : Token} {value : Int32}
    (htimes : ∀ t ∈ times, t.IsCount) (hfaces : faces.IsNumber value)
    (hmodifier : ∀ t ∈ modifier, t.IsModifier value) (hplain : ∀ t ∈ modifier, t.IsPlain) :
    ∃ d, diceOf times faces modifier = .ok d ∧ d.Writable := by
  obtain ⟨number, hnumber, hrange⟩ : ∃ number : UInt8, times.elim (.ok 1) Token.count = .ok number ∧
      1 ≤ number.toNat ∧ number.toNat ≤ 255 := by
    cases times with
    | none => exact ⟨1, rfl, by decide⟩
    | some t => exact (htimes t rfl).exists_count
  obtain ⟨mode, hmode, hsuits⟩ : ∃ mode, modifier.elim (.ok .none) Token.modifier = .ok mode ∧
      (mode = .explode → value ∉ [-1, 0, 1]) := by
    cases modifier with
    | none => exact ⟨.none, rfl, by simp⟩
    | some t => exact (hmodifier t rfl).exists_modifier (hplain t rfl)
  exact ⟨⟨number, value, mode⟩, diceOf_eq_ok hnumber hfaces.faces_eq hmode, hrange, hsuits⟩

/-- The tree of a terminal stands for a constant or for dice. -/
theorem IsTerminal.exists_leaf (h : n.IsTerminal) (hplain : ∀ t ∈ n.tokens, t.IsPlain) :
    ∃ e, n.expression = .ok e ∧ e.IsLeaf := by
  cases h with
  | number hvalue => exact ⟨_, rfl, .constant _⟩
  | dice htimes hd hfaces hmodifier =>
    obtain ⟨d, hd, hwritable⟩ := exists_diceOf htimes hfaces hmodifier fun t ht =>
      hplain t (by simp [tokens, Option.mem_def.1 ht])
    refine ⟨.dice d, ?_, .dice hwritable⟩
    rw [expression, hd]
    rfl

/-- A terminal is no operation. -/
theorem IsTerminal.isOperation_eq_false (h : n.IsTerminal) : n.isOperation = false := by
  cases h <;> rfl

/-- The tree of an expression stands for an expression that can be written.

**Proof sketch.** Induction on the tree. The left operand of an operation is a terminal, so it stands
for a leaf; the right operand stands for an expression by induction. -/
theorem exists_expression (h : n.IsExpression) (hplain : ∀ t ∈ n.tokens, t.IsPlain) :
    ∃ e, n.expression = .ok e ∧ e.Writable := by
  induction h with
  | terminal h =>
    obtain ⟨e, he, hleaf⟩ := h.exists_leaf hplain
    exact ⟨e, he, .leaf hleaf⟩
  | @operation left right operator hleft hoperator hright ih =>
    simp only [tokens, List.mem_append, List.mem_cons] at hplain
    obtain ⟨lhs, hlhs, hleaf⟩ := hleft.exists_leaf fun t ht => hplain t (Or.inl ht)
    obtain ⟨rhs, hrhs, hwritable⟩ := ih fun t ht => hplain t (Or.inr (Or.inr ht))
    obtain ⟨op, hop⟩ := (hplain operator (Or.inr (Or.inl rfl))).exists_operator hoperator
    have hoperation := operation_expression_eq_ok hleft.isOperation_eq_false hlhs hrhs hop
    exact ⟨.operation op lhs rhs, hoperation, .operation op hleaf hwritable⟩

end Node

/-! ## Programs -/

/-- A step that succeeds at all items of a list succeeds at the list, item by item. -/
theorem mapM_eq_ok {ε α β : Type} {f : α → Except ε β} {as : List α} {bs : List β} :
    as.mapM f = .ok bs ↔ as.map f = bs.map .ok := by
  induction as generalizing bs with
  | nil => cases bs <;> simp [pure, Except.pure]
  | cons a as ih =>
    rw [List.mapM_cons]
    cases bs with
    | nil =>
      cases f a with
      | error e => simp [bind, Except.bind]
      | ok b => cases as.mapM f <;> simp [bind, Except.bind, pure, Except.pure]
    | cons b bs =>
      rw [List.map_cons, List.map_cons, List.cons.injEq, ← ih]
      cases f a with
      | error e => simp [bind, Except.bind]
      | ok c => cases as.mapM f <;> simp [bind, Except.bind, pure, Except.pure]

/-- If a step succeeds at every item with a result that has a property, the results form a list. -/
theorem exists_map_eq {ε α β : Type} {f : α → Except ε β} {P : β → Prop} {as : List α}
    (h : ∀ a ∈ as, ∃ b, f a = .ok b ∧ P b) :
    ∃ bs : List β, as.map f = bs.map .ok ∧ ∀ b ∈ bs, P b := by
  induction as with
  | nil => exact ⟨[], rfl, by simp⟩
  | cons a as ih =>
    obtain ⟨b, hb, hPb⟩ := h a List.mem_cons_self
    obtain ⟨bs, hbs, hPbs⟩ := ih fun a' ha' => h a' (List.mem_cons_of_mem a ha')
    exact ⟨b :: bs, by rw [List.map_cons, hb, hbs]; rfl, by simpa [hPb] using hPbs⟩

/-- The expressions of a text are those of its program. -/
theorem Rolls.ofText_eq_ok {text : String} {prog : Program} {rolls : Rolls}
    (hparse : parse text = .ok prog) (hrolls : prog.rolls = .ok rolls) :
    Rolls.ofText text = .ok rolls := by
  unfold Rolls.ofText
  rw [hparse]
  show prog.rolls.mapError Failure.defective = _
  rw [hrolls]
  rfl

/-- A text that has expressions has been parsed. -/
theorem Rolls.exists_parse_of_ofText {text : String} {rolls : Rolls}
    (h : Rolls.ofText text = .ok rolls) : ∃ prog, parse text = .ok prog := by
  cases hparse : parse text with
  | error e => simp [ofText, hparse, Except.mapError, bind, Except.bind] at h
  | ok prog => exact ⟨prog, rfl⟩

/-- A program whose operators and modifiers are plain stands for writable expressions. -/
theorem Program.Spelling.exists_rolls {prog : Program} {ts : List Token} (h : prog.Spelling ts)
    (hplain : ∀ t ∈ ts, t.IsPlain) :
    ∃ rolls, prog.rolls = .ok rolls ∧ prog.items.map Node.expression = rolls.map .ok ∧
      ∀ e ∈ rolls, e.Writable := by
  cases h with
  | @program start stop items ts _ hitems _ =>
    have hexpressions : ∀ n ∈ items, ∃ e, n.expression = .ok e ∧ e.Writable := by
      intro n hn
      obtain ⟨hexpression, htokens⟩ := hitems.of_mem hn
      exact Node.exists_expression hexpression fun t ht => hplain t (by simp [htokens t ht])
    obtain ⟨rolls, hrolls, hwritable⟩ := exists_map_eq hexpressions
    exact ⟨rolls, mapM_eq_ok.2 hrolls, hrolls, hwritable⟩

/-- The operators and modifiers of a text are plain. -/
theorem isPlain_of_mem_items {l : Lexer} {t : Token} (h : .ok t ∈ l.items) : t.IsPlain := by
  rcases Grammar.exists_piece_of_mem_items h with hk | hk | ⟨p, pos, rfl⟩
  · exact ⟨by simp [hk], by simp [hk]⟩
  · exact ⟨by simp [hk], by simp [hk]⟩
  · constructor
    · intro hk
      obtain ⟨s, rfl⟩ := Grammar.exists_sign hk (by decide)
      rw [Grammar.Piece.lexeme_token]
      have hs := s.mem
      simp only [TokenKind.signs, List.mem_cons, List.not_mem_nil, or_false] at hs
      rcases hs with hs | hs
      · exact Or.inl (by simp [Grammar.Sign.piece, hs])
      · exact Or.inr (by simp [Grammar.Sign.piece, hs])
    · intro hk
      obtain ⟨s, rfl⟩ := Grammar.exists_sign hk (by decide)
      rw [Grammar.Piece.lexeme_token, String.toList_ofList]
      rfl

/-- **What is parsed can be rolled.** If a fixed stream whose operators and modifiers are plain is
parsed, its program has no defect: it stands for one expression for each tree, in order, and all
of them can be written in the notation. The same holds for every text.

**Proof sketch.** The tokens of the program are items of the stream and spell it. Its trees are those
of expressions, which stand for writable expressions. The items of a text are plain. -/
theorem exists_rolls_of_parse :
    (∀ (p : Parser FixedStream) (prog : Program), (∀ t, .ok t ∈ p.tokens.items → t.IsPlain) →
      p.parse.1 = .ok prog →
      ∃ rolls, prog.rolls = .ok rolls ∧ prog.items.map Node.expression = rolls.map .ok ∧
        ∀ e ∈ rolls, e.Writable) ∧
    ∀ (text : String) (prog : Program), parse text = .ok prog →
      ∃ rolls, Rolls.ofText text = .ok rolls ∧ prog.rolls = .ok rolls ∧
        prog.items.map Node.expression = rolls.map .ok ∧ ∀ e ∈ rolls, e.Writable := by
  have hfixed (p : Parser FixedStream) (prog : Program)
      (hplain : ∀ t, .ok t ∈ p.tokens.items → t.IsPlain) (h : p.parse.1 = .ok prog) :
      ∃ rolls, prog.rolls = .ok rolls ∧ prog.items.map Node.expression = rolls.map .ok ∧
        ∀ e ∈ rolls, e.Writable := by
    obtain ⟨ts, hspelling, hstarts⟩ := Parser.parse_eq_ok_iff.1 h
    exact hspelling.exists_rolls fun t ht => hplain t (hstarts.mem_items ht)
  refine ⟨hfixed, fun text prog h => ?_⟩
  have hparse := h
  rw [parse_eq_parse_items] at h
  obtain ⟨rolls, hrolls, hmap, hwritable⟩ :=
    hfixed _ prog (fun t ht => isPlain_of_mem_items ht) h
  exact ⟨rolls, Rolls.ofText_eq_ok hparse hrolls, hrolls, hmap, hwritable⟩

/-- The tokens of `d4h-1`. -/
def sampleTokens : List Token :=
  [Token.sof, ⟨.dSymbol, "d", 0, 0⟩, ⟨.number, "4", 1, 1⟩, ⟨.modifier, "h", 2, 2⟩,
    ⟨.operator, "-", 3, 3⟩, ⟨.number, "1", 4, 4⟩, Token.eof 5]

/-- A program is parsed from its tokens and from its text, and it can be rolled. -/
theorem exists_rolls_of_parse_sample :
    (∃ rolls, Grammar.sampleProgram.rolls = .ok rolls ∧ ∀ e ∈ rolls, e.Writable) ∧
      ∃ rolls, Rolls.ofText "d4h-1" = .ok rolls ∧ ∀ e ∈ rolls, e.Writable := by
  have hplain : ∀ t ∈ sampleTokens, t.IsPlain := by decide +kernel
  constructor
  · obtain ⟨rolls, hrolls, -, hwritable⟩ := exists_rolls_of_parse.1
      (.ofStream (.ofItems (sampleTokens.map .ok) (by simp [sampleTokens]))) Grammar.sampleProgram
      (fun t ht => hplain t (by simpa [Parser.ofStream, FixedStream.ofItems] using ht))
      (by decide +kernel)
    exact ⟨rolls, hrolls, hwritable⟩
  · obtain ⟨rolls, hrolls, -, -, hwritable⟩ := exists_rolls_of_parse.2 "d4h-1" Grammar.sampleProgram
      (by decide +kernel)
    exact ⟨rolls, hrolls, hwritable⟩

end DiceNotation
