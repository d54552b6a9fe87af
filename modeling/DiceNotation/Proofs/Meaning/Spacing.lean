import DiceNotation.Proofs.Meaning.Denotations

set_option autoImplicit false

/-!
# Spacing

The spaces of a text that is read play no part. Behind each of its tokens there can be any number of
spaces, or none, and it stands for the same expressions. For the grammar never has two units next to
each other that run into one another, and its rules ask nothing of spaces. Texts that are not read
may need theirs: without its space `1 2` is read, as one number.

## Main definitions

* `Grammar.Piece.unit` — what a piece is, apart from the spaces behind it.
* `Grammar.Throw.spaced` — dice that are written with other spaces.
* `Rolls.respaced` — the text of tokens with given spaces behind them.

## Main results

* `Grammar.Derivation.exists_of_map_unit` — pieces with the units of a derivation have a derivation,
  of the same expressions.
* `Rolls.ofText_respaced` — a text that is read stands for the same expressions with any spaces.
-/

namespace DiceNotation

namespace Grammar

/-! ## Pieces -/

namespace Piece

/-- The kind and the characters of a piece, without the spaces behind it. -/
def unit (p : Piece) : TokenKind × List Char :=
  (p.kind, p.chars)

/-- The unit of a piece with `n` spaces behind it. -/
def spaced (p : Piece) (n : Nat) : Piece :=
  { p with spaces := n }

@[simp] theorem unit_spaced (p : Piece) (n : Nat) : (p.spaced n).unit = p.unit :=
  rfl

/-- Pieces with the same unit differ in the spaces behind it. -/
theorem eq_spaced {p q : Piece} (h : q.unit = p.unit) : q = p.spaced q.spaces := by
  obtain ⟨kind, chars, spaces, _⟩ := q
  obtain ⟨rfl, rfl⟩ := Prod.mk.inj h
  rfl

end Piece

/-- A sequence with the unit of one piece is that piece with other spaces. -/
theorem eq_singleton_spaced {p : Piece} {qs : List Piece}
    (h : qs.map Piece.unit = [p].map Piece.unit) : ∃ n, qs = [p.spaced n] := by
  obtain ⟨q, rest, rfl, hq, hrest⟩ := List.map_eq_cons_iff.1 h
  obtain rfl := List.map_eq_nil_iff.1 hrest
  exact ⟨q.spaces, by rw [← Piece.eq_spaced hq]⟩

/-- A sequence with the unit of a piece that may be missing is that piece with other spaces. -/
theorem eq_toList_spaced {α : Type} {f : α → Piece} {o : Option α} {qs : List Piece}
    (h : qs.map Piece.unit = (o.map f).toList.map Piece.unit) :
    ∃ n, qs = (o.map fun a => (f a).spaced n).toList := by
  cases o with
  | none => exact ⟨0, List.map_eq_nil_iff.1 h⟩
  | some a => exact eq_singleton_spaced h

/-! ## Rules -/

/-- A number with `k` spaces behind it. -/
def Num.spaced (n : Num) (k : Nat) : Num :=
  { n with spaces := k }

/-- A character of a kind with `k` spaces behind it. -/
def Sign.spaced {kind : TokenKind} (s : Sign kind) (k : Nat) : Sign kind :=
  { s with spaces := k }

/-- Dice with other spaces behind their parts. What is asked of their numbers is asked of the values,
so it still holds. -/
def Throw.spaced (d : Throw) (count letter faces modifier : Nat) : Throw where
  count := d.count.map (·.spaced count)
  letter := d.letter.spaced letter
  faces := d.faces.spaced faces
  modifier := d.modifier.map (·.spaced modifier)
  count_range := by
    intro n hn
    obtain ⟨m, hm, rfl⟩ := Option.map_eq_some_iff.1 hn
    exact d.count_range m hm
  faces_of_explode := by
    intro s hs
    obtain ⟨r, hr, rfl⟩ := Option.map_eq_some_iff.1 hs
    exact d.faces_of_explode r hr

/-- Spaces play no part in what dice stand for. -/
theorem Throw.dice_spaced (d : Throw) (count letter faces modifier : Nat) :
    (d.spaced count letter faces modifier).dice = d.dice := by
  obtain ⟨_ | _, _, _, _ | _, _, _⟩ := d <;> rfl

/-- Pieces with the units of dice are those dice with other spaces. -/
theorem Throw.exists_spaced {d : Throw} {qs : List Piece}
    (h : qs.map Piece.unit = d.pieces.map Piece.unit) :
    ∃ count letter faces modifier, (d.spaced count letter faces modifier).pieces = qs := by
  rw [pieces, List.map_append, List.map_append] at h
  obtain ⟨front, behind, rfl, hfront, hbehind⟩ := List.map_eq_append_iff.1 h
  obtain ⟨counts, middle, rfl, hcounts, hmiddle⟩ := List.map_eq_append_iff.1 hfront
  obtain ⟨q, rest, rfl, hq, hrest⟩ := List.map_eq_cons_iff.1 hmiddle
  obtain ⟨count, rfl⟩ := eq_toList_spaced hcounts
  obtain ⟨faces, rfl⟩ := eq_singleton_spaced hrest
  obtain ⟨modifier, rfl⟩ := eq_toList_spaced hbehind
  refine ⟨count, q.spaces, faces, modifier, ?_⟩
  rw [Piece.eq_spaced hq, pieces, spaced, Option.map_map, Option.map_map]
  rfl

/-- Pieces with the units of a term form a term with the same meaning. -/
theorem Term.exists_of_map_unit {t : Term} {qs : List Piece}
    (h : qs.map Piece.unit = t.pieces.map Piece.unit) :
    ∃ t' : Term, t'.pieces = qs ∧ t'.meaning = t.meaning := by
  cases t with
  | number n =>
    obtain ⟨k, rfl⟩ := eq_singleton_spaced h
    exact ⟨.number (n.spaced k), rfl, rfl⟩
  | dice d =>
    obtain ⟨count, letter, faces, modifier, rfl⟩ := Throw.exists_spaced h
    exact ⟨.dice (d.spaced count letter faces modifier), rfl,
      congrArg Expression.dice (d.dice_spaced ..)⟩

/-- Pieces with the units of an expression form an expression with the same meaning.

**Proof sketch.** Induction along the expression. The pieces are split where the expression has its
first operator, and the operator has the same character. -/
theorem Expr.exists_of_map_unit {e : Expr} {qs : List Piece}
    (h : qs.map Piece.unit = e.pieces.map Piece.unit) :
    ∃ e' : Expr, e'.pieces = qs ∧ e'.meaning = e.meaning := by
  induction e generalizing qs with
  | term t =>
    obtain ⟨t', hpieces, hmeaning⟩ := Term.exists_of_map_unit h
    exact ⟨.term t', hpieces, hmeaning⟩
  | operation left operator right ih =>
    rw [pieces, List.map_append] at h
    obtain ⟨front, behind, rfl, hfront, hbehind⟩ := List.map_eq_append_iff.1 h
    obtain ⟨q, rest, rfl, hq, hrest⟩ := List.map_eq_cons_iff.1 hbehind
    obtain ⟨left', rfl, hleft⟩ := Term.exists_of_map_unit hfront
    obtain ⟨right', rfl, hright⟩ := ih hrest
    refine ⟨.operation left' (operator.spaced q.spaces) right', ?_, ?_⟩
    · rw [Piece.eq_spaced hq]
      rfl
    · rw [meaning, meaning, hleft, hright]
      rfl

/-- Pieces with the units of expressions behind separators form expressions with the same meanings
behind separators. -/
theorem exists_furtherPieces {further : List (Sign .separator × Expr)} {qs : List Piece}
    (h : qs.map Piece.unit = (furtherPieces further).map Piece.unit) :
    ∃ further', furtherPieces further' = qs ∧
      further'.map (·.2.meaning) = further.map (·.2.meaning) := by
  induction further generalizing qs with
  | nil => exact ⟨[], (List.map_eq_nil_iff.1 h).symm, rfl⟩
  | cons r further ih =>
    obtain ⟨separator, e⟩ := r
    rw [furtherPieces, List.map_append] at h
    obtain ⟨front, behind, rfl, hfront, hbehind⟩ := List.map_eq_append_iff.1 h
    obtain ⟨q, rest, rfl, hq, hrest⟩ := List.map_eq_cons_iff.1 hfront
    obtain ⟨e', rfl, hmeaning⟩ := Expr.exists_of_map_unit hrest
    obtain ⟨further', rfl, hmeanings⟩ := ih hbehind
    refine ⟨(separator.spaced q.spaces, e') :: further', ?_, ?_⟩
    · rw [Piece.eq_spaced hq]
      rfl
    · rw [List.map_cons, List.map_cons, hmeaning, hmeanings]

/-- Pieces with the units of a derivation have a derivation of the same expressions, behind any
number of spaces. -/
theorem Derivation.exists_of_map_unit {d : Derivation} {qs : List Piece}
    (h : qs.map Piece.unit = d.pieces.map Piece.unit) (first : Nat) :
    ∃ d' : Derivation, d'.text = List.replicate first ' ' ++ textOf qs ∧ d'.rolls = d.rolls := by
  obtain ⟨spaces, _ | ⟨e, further⟩⟩ := d
  · obtain rfl := List.map_eq_nil_iff.1 h
    exact ⟨⟨first, none⟩, rfl, rfl⟩
  · rw [pieces, List.map_append] at h
    obtain ⟨front, behind, rfl, hfront, hbehind⟩ := List.map_eq_append_iff.1 h
    obtain ⟨e', rfl, hmeaning⟩ := Expr.exists_of_map_unit hfront
    obtain ⟨further', rfl, hmeanings⟩ := exists_furtherPieces hbehind
    exact ⟨⟨first, some (e', further')⟩, rfl, congrArg₂ List.cons hmeaning hmeanings⟩

end Grammar

/-! ## Texts -/

namespace Rolls

open Grammar (Piece textOf place)

/-- A number of spaces, and the lexemes of tokens, each with a number of spaces behind it. -/
def respaced (first : Nat) (spaced : List (Token × Nat)) : String :=
  String.ofList (List.replicate first ' ' ++
    spaced.flatMap fun r => r.1.lexeme.toList ++ List.replicate r.2 ' ')

/-- The lexemes of the tokens of pieces, with spaces behind them, are the text of pieces with the same
units. -/
theorem exists_pieces_of_spaced {pos : Int} {ps : List Piece} {spaced : List (Token × Nat)}
    (h : spaced.map Prod.fst = place pos ps) :
    ∃ qs : List Piece, qs.map Piece.unit = ps.map Piece.unit ∧
      textOf qs = spaced.flatMap fun r => r.1.lexeme.toList ++ List.replicate r.2 ' ' := by
  induction ps generalizing pos spaced with
  | nil =>
    obtain rfl := List.map_eq_nil_iff.1 h
    exact ⟨[], rfl, rfl⟩
  | cons p ps ih =>
    obtain ⟨⟨t, n⟩, rest, rfl, rfl, hrest⟩ := List.map_eq_cons_iff.1 h
    obtain ⟨qs, hunits, htext⟩ := ih hrest
    refine ⟨p.spaced n :: qs, by rw [List.map_cons, List.map_cons, Piece.unit_spaced, hunits], ?_⟩
    rw [Grammar.textOf_cons, htext, List.flatMap_cons, Piece.lexeme_token, String.toList_ofList]
    rfl

/-- **Spaces play no part in a text that is read.** The tokens of the text stand between a start and
an end. Their lexemes can be written again with any number of spaces in front of them and behind each
of them, none included: the text that they form is parsed too, and stands for the same expressions.

**Proof sketch.** The tokens come from the pieces of a derivation. With other spaces these have a
derivation too, as no rule asks for a space, and it tells the same expressions. Where two pieces stand
next to each other in a derivation, they are read back as two pieces. -/
theorem ofText_respaced {text : String} {prog : Program} (h : parse text = .ok prog) :
    ∃ (start stop : Token) (ts : List Token) (es : Rolls),
      (Lexer.ofText text.toList).items = (start :: ts ++ [stop]).map .ok ∧
      start.kind = .sof ∧ stop.kind = .eof ∧ ofText text = .ok es ∧
      ∀ (first : Nat) (spaced : List (Token × Nat)), spaced.map Prod.fst = ts →
        (∃ prog', parse (respaced first spaced) = .ok prog') ∧
          ofText (respaced first spaced) = .ok es := by
  obtain ⟨d, htext, -⟩ := Grammar.exists_derivation_of_parse h
  obtain ⟨start, stop, hstart, hstop, hitems⟩ := d.items_text
  rw [htext] at hitems
  refine ⟨start, stop, _, d.rolls, hitems, hstart, hstop, ofText_eq_ok_iff.2 ⟨d, htext, rfl⟩, ?_⟩
  intro first spaced hspaced
  obtain ⟨qs, hunits, hqs⟩ := exists_pieces_of_spaced hspaced
  obtain ⟨d', htext', hrolls⟩ := Grammar.Derivation.exists_of_map_unit hunits first
  have hrespaced : d'.text = (respaced first spaced).toList := by
    rw [htext', hqs, respaced, String.toList_ofList]
  exact ⟨⟨_, d'.parse_text hrespaced⟩, ofText_eq_ok_iff.2 ⟨d', hrespaced, hrolls⟩⟩

/-- A text that stands for the same expressions without its spaces, and with other ones. -/
theorem ofText_respaced_sample :
    ∃ prog es, parse "d4 - -2" = .ok prog ∧ ofText "d4 - -2" = .ok es ∧
      ofText "d4--2" = .ok es ∧ ofText " d 4-  -2" = .ok es := by
  obtain ⟨prog, hparse⟩ : ∃ prog, parse "d4 - -2" = .ok prog := ⟨⟨[.operation
    (.dice none ⟨.dSymbol, "d", 0, 0⟩ ⟨.number, "4 ", 1, 2⟩ none) ⟨.operator, "- ", 3, 4⟩
    (.number ⟨.number, "-2", 5, 6⟩ (-2))]⟩, by decide +kernel⟩
  obtain ⟨start, stop, ts, es, hitems, -, -, hread, hrespaced⟩ := ofText_respaced hparse
  have htokens : (Lexer.ofText "d4 - -2".toList).items =
      (Token.sof :: [⟨.dSymbol, "d", 0, 0⟩, ⟨.number, "4 ", 1, 2⟩, ⟨.operator, "- ", 3, 4⟩,
        ⟨.number, "-2", 5, 6⟩] ++ [Token.eof 7]).map .ok := by
    decide +kernel
  have hall := (List.map_inj_right fun _ _ => Except.ok.inj).1 (hitems.symm.trans htokens)
  have hts := (List.cons.inj (List.append_inj_left' hall rfl)).2
  have hzero : respaced 0 (ts.map (·, 0)) = "d4--2" := by
    rw [hts]
    decide +kernel
  have hmore : respaced 1 (ts.zip [1, 0, 2, 0]) = " d 4-  -2" := by
    rw [hts]
    decide +kernel
  rw [← hzero, ← hmore]
  exact ⟨prog, es, hparse, hread, (hrespaced 0 _ (by rw [hts]; rfl)).2,
    (hrespaced 1 _ (by rw [hts]; rfl)).2⟩

-- The text has to be read: a space less can make one number of two.
example : (ofText "12").toOption = some [.constant 12] ∧ (ofText "1 2").toOption = none := by
  decide +kernel

end Rolls

end DiceNotation
