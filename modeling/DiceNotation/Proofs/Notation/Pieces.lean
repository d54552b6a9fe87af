import DiceNotation.Proofs.Lexing.Items

set_option autoImplicit false

/-!
# Texts as sequences of pieces

A piece is a unit of the notation as it stands in a text: its characters and the spaces behind them.
Reading tokens takes a text apart into pieces. Whether a minus belongs to a number depends on the
piece in front of it. The notation puts numbers where an operand can stand, and operators elsewhere.

## Main definitions

* `TokenKind.signs`, `TokenKind.Spells` — how the units of each kind are written.
* `Grammar.Piece` — a unit and the spaces behind it, with its text and its token.
* `Grammar.place` — the tokens of pieces that stand one behind the other.
* `Grammar.Chain` — numbers and operators stand where the lexer expects them.

## Main results

* `Grammar.exists_pieces` — a text that is read to its end consists of pieces.
* `Grammar.Piece.token_inj` — a token tells its piece and its place.
-/

namespace DiceNotation

/-! ## How units are written -/

namespace TokenKind

/-- The characters that units of a kind are written with, for the kinds with units of one
character. -/
def signs : TokenKind → List Char
  | dSymbol => ['d', 'D']
  | modifier => ['H', 'L', 'h', 'l', 'e']
  | operator => ['+', '-']
  | separator => [';']
  | _ => []

/-- The characters spell a unit of a kind: a number is digits behind a minus or nothing, any other
unit is one of the characters of its kind. -/
inductive Spells : TokenKind → List Char → Prop
  | number (negative : Bool) {digits : List Char} (hne : digits ≠ [])
    (hdigits : ∀ c ∈ digits, c.isDigit = true) :
    Spells .number ((if negative then ['-'] else []) ++ digits)
  | sign {kind : TokenKind} {c : Char} (hc : c ∈ kind.signs) : Spells kind [c]

/-- The character of a unit is no space and no digit. -/
theorem ne_space_of_mem_signs {kind : TokenKind} {c : Char} (h : c ∈ kind.signs) :
    c ≠ ' ' ∧ c.isDigit = false := by
  cases kind
  all_goals simp only [signs, List.mem_cons, List.not_mem_nil, or_false] at h
  case dSymbol | operator => rcases h with rfl | rfl <;> decide
  case modifier => rcases h with rfl | rfl | rfl | rfl | rfl <;> decide
  case separator => subst h; decide

/-- The characters of modifiers are those that stand for one. -/
theorem mem_signs_modifier_iff {c : Char} :
    c ∈ modifier.signs ↔ (Modifier.ofChar? c).isSome = true := by
  constructor
  · intro h
    simp only [signs, List.mem_cons, List.not_mem_nil, or_false] at h
    rcases h with rfl | rfl | rfl | rfl | rfl <;> rfl
  · intro h
    obtain ⟨m, hm⟩ := Option.isSome_iff_exists.1 h
    have hsymbol := Modifier.ofChar?_eq_some_iff.1 hm
    cases m <;> cases hsymbol <;> decide

/-- The characters of operators are those that stand for one. -/
theorem mem_signs_operator_iff {c : Char} :
    c ∈ operator.signs ↔ (Operator.ofChar? c).isSome = true := by
  constructor
  · intro h
    simp only [signs, List.mem_cons, List.not_mem_nil, or_false] at h
    rcases h with rfl | rfl <;> rfl
  · intro h
    obtain ⟨op, hop⟩ := Option.isSome_iff_exists.1 h
    rw [← Operator.ofChar?_eq_some_iff.1 hop]
    cases op <;> decide

/-- A unit is not empty. -/
theorem Spells.ne_nil {kind : TokenKind} {cs : List Char} (h : kind.Spells cs) : cs ≠ [] := by
  cases h with
  | number negative hne => simp [hne]
  | sign => simp

/-- The end of a text is no unit. -/
theorem Spells.kind_ne_eof {kind : TokenKind} {cs : List Char} (h : kind.Spells cs) :
    kind ≠ .eof := by
  rintro rfl
  cases h with
  | sign hc => simp [signs] at hc

/-- The characters of a unit: a minus and digits for a number, and else those of its kind. -/
theorem Spells.of_mem {kind : TokenKind} {cs : List Char} (h : kind.Spells cs) {c : Char}
    (hc : c ∈ cs) : kind = .number ∧ (c = '-' ∨ c.isDigit = true) ∨ c ∈ kind.signs := by
  cases h with
  | number negative _ hdigits =>
    refine Or.inl ⟨rfl, ?_⟩
    rcases List.mem_append.1 hc with hc | hc
    · cases negative
      · simp at hc
      · exact Or.inl (List.mem_singleton.1 hc)
    · exact Or.inr (hdigits c hc)
  | sign hmem =>
    obtain rfl := List.mem_singleton.1 hc
    exact Or.inr hmem

/-- A unit contains no space. -/
theorem Spells.ne_space {kind : TokenKind} {cs : List Char} (h : kind.Spells cs) {c : Char}
    (hc : c ∈ cs) : c ≠ ' ' := by
  rcases h.of_mem hc with ⟨-, rfl | hdigit⟩ | hsign
  · decide
  · rintro rfl
    exact absurd hdigit (by decide)
  · exact (ne_space_of_mem_signs hsign).1

/-- Behind the first character of a unit there are more only in a number, all of them digits. -/
theorem Spells.of_cons {kind : TokenKind} {c : Char} {ds : List Char} (h : kind.Spells (c :: ds)) :
    kind = .number ∧ (∀ d ∈ ds, d.isDigit = true) ∨ kind ≠ .number ∧ ds = [] := by
  generalize hcs : c :: ds = cs at h
  cases h with
  | @number negative digits hne hdigits =>
    refine Or.inl ⟨rfl, fun d hd => hdigits d ?_⟩
    cases negative with
    | false =>
      obtain rfl : c :: ds = digits := by simpa using hcs
      exact List.mem_cons_of_mem c hd
    | true =>
      obtain ⟨-, rfl⟩ : c = '-' ∧ ds = digits := by simpa using hcs
      exact hd
  | sign hc =>
    refine Or.inr ⟨?_, (List.cons.inj hcs).2⟩
    rintro rfl
    simp [signs] at hc

end TokenKind

/-! ## Pieces -/

namespace Grammar

/-- A unit and the spaces behind it. -/
structure Piece where
  /-- The kind of the unit. -/
  kind : TokenKind
  /-- The characters of the unit. -/
  chars : List Char
  /-- The number of spaces behind it. -/
  spaces : Nat
  spells : kind.Spells chars

namespace Piece

/-- The characters of a piece. -/
def text (p : Piece) : List Char :=
  p.chars ++ List.replicate p.spaces ' '

/-- The token of a piece whose first character stands at `pos`. -/
def token (p : Piece) (pos : Int) : Token :=
  ⟨p.kind, String.ofList p.text, pos, pos + p.text.length - 1⟩

@[simp] theorem token_kind (p : Piece) (pos : Int) : (p.token pos).kind = p.kind :=
  rfl

/-- The lexeme of the token consists of the characters of the unit. -/
theorem lexeme_token (p : Piece) (pos : Int) :
    (p.token pos).lexeme = String.ofList p.chars := by
  have hspaces : ∀ c ∈ List.replicate p.spaces ' ', (c == ' ') = true := by
    intro c hc
    simp [(List.mem_replicate.1 hc).2]
  have hchars : p.chars.reverse.dropWhile (· == ' ') = p.chars.reverse := by
    cases hr : p.chars.reverse with
    | nil => rfl
    | cons c cs =>
      have hc : c ∈ p.chars := List.mem_reverse.1 (by rw [hr]; exact List.mem_cons_self)
      exact List.dropWhile_cons_of_neg (by simpa using p.spells.ne_space hc)
  simp only [Token.lexeme, token, text, String.toList_ofList, List.reverse_append,
    List.reverse_replicate, List.dropWhile_append_of_pos hspaces, hchars, List.reverse_reverse]

/-- A token tells its piece and its place. -/
theorem token_inj {p q : Piece} {m n : Int} (h : p.token m = q.token n) : p = q ∧ m = n := by
  have hpos : m = n := congrArg Token.startPos h
  have hkind : p.kind = q.kind := congrArg Token.kind h
  have htext : p.text = q.text := String.ofList_injective (congrArg Token.content h)
  have hlexeme := congrArg Token.lexeme h
  rw [lexeme_token, lexeme_token] at hlexeme
  have hchars : p.chars = q.chars := String.ofList_injective hlexeme
  have hspaces : p.spaces = q.spaces := by
    have hlen := congrArg List.length htext
    simpa [text, hchars] using hlen
  refine ⟨?_, hpos⟩
  cases p
  cases q
  cases hkind
  cases hchars
  cases hspaces
  rfl

end Piece

/-! ## Pieces one behind the other -/

/-- The characters of pieces. -/
def textOf (ps : List Piece) : List Char :=
  ps.flatMap Piece.text

@[simp] theorem textOf_nil : textOf [] = [] :=
  rfl

@[simp] theorem textOf_cons (p : Piece) (ps : List Piece) :
    textOf (p :: ps) = p.text ++ textOf ps :=
  rfl

@[simp] theorem textOf_append (ps qs : List Piece) : textOf (ps ++ qs) = textOf ps ++ textOf qs :=
  List.flatMap_append

/-- The tokens of pieces, the first of which stands at `pos`. -/
def place (pos : Int) : List Piece → List Token
  | [] => []
  | p :: ps => p.token pos :: place (pos + p.text.length) ps

/-- The tokens of two sequences of pieces. -/
theorem place_append (pos : Int) (ps qs : List Piece) :
    place pos (ps ++ qs) = place pos ps ++ place (pos + (textOf ps).length) qs := by
  induction ps generalizing pos with
  | nil => simp [place]
  | cons p ps ih =>
    simp only [List.cons_append, place, ih, textOf_cons, List.length_append, Int.natCast_add,
      Int.add_assoc]

/-- Two sequences of tokens of pieces come from two sequences of pieces. -/
theorem place_eq_append {pos : Int} {ps : List Piece} {ts us : List Token}
    (h : place pos ps = ts ++ us) :
    ∃ qs rs, ps = qs ++ rs ∧ place pos qs = ts ∧ place (pos + (textOf qs).length) rs = us := by
  induction ts generalizing pos ps with
  | nil => exact ⟨[], ps, rfl, rfl, by simpa using h⟩
  | cons t ts ih =>
    cases ps with
    | nil => simp [place] at h
    | cons p ps =>
      obtain ⟨rfl, hrest⟩ := List.cons.inj h
      obtain ⟨qs, rs, rfl, hts, hus⟩ := ih hrest
      refine ⟨p :: qs, rs, rfl, by rw [place, hts], ?_⟩
      rw [← hus]
      congr 1
      simp only [textOf_cons, List.length_append]
      omega

/-- One token of pieces comes from one piece. -/
theorem place_eq_singleton {pos : Int} {ps : List Piece} {t : Token} (h : place pos ps = [t]) :
    ∃ p, ps = [p] ∧ p.token pos = t := by
  match ps with
  | [] => simp [place] at h
  | [p] => exact ⟨p, rfl, List.head_eq_of_cons_eq h⟩
  | _ :: _ :: _ => simp [place] at h

/-! ## Operands and operators -/

/-- A piece stands behind a unit of a kind: numbers where an operand can stand, and operators where
no operand can stand. -/
def Piece.Fits (p : Piece) (previous : Option TokenKind) : Prop :=
  (p.kind = .number → Lexer.startsOperand previous = true) ∧
    (p.kind = .operator → Lexer.startsOperand previous = false)

/-- Pieces of which each stands behind the one in front of it, and the first one behind a unit of a
kind. -/
def Chain : Option TokenKind → List Piece → Prop
  | _, [] => True
  | previous, p :: ps => p.Fits previous ∧ Chain (some p.kind) ps

/-- The kind of the last of several pieces, or of the unit in front of them if there are none. -/
def lastKind : Option TokenKind → List Piece → Option TokenKind
  | previous, [] => previous
  | _, p :: ps => lastKind (some p.kind) ps

/-- The last of two sequences of pieces is the last of the second one, behind the first one. -/
theorem lastKind_append (previous : Option TokenKind) (ps qs : List Piece) :
    lastKind previous (ps ++ qs) = lastKind (lastKind previous ps) qs := by
  induction ps generalizing previous with
  | nil => rfl
  | cons p ps ih => exact ih (some p.kind)

/-- Two sequences of pieces are a chain if the first one is and the second one is behind it. -/
theorem chain_append {previous : Option TokenKind} {ps qs : List Piece} :
    Chain previous (ps ++ qs) ↔ Chain previous ps ∧ Chain (lastKind previous ps) qs := by
  induction ps generalizing previous with
  | nil => simp [Chain, lastKind]
  | cons p ps ih => simp only [List.cons_append, Chain, lastKind, ih, and_assoc]

/-! ## Taking a text apart -/

/-- A character begins a token of a kind only as a unit of the kind does. -/
theorem eq_number_or_mem_signs {kind : TokenKind} {c : Char} {previous : Option TokenKind}
    {ahead : Option Char} (h : Lexer.kindOf? previous c ahead = some kind) :
    kind = .number ∧ (c.isDigit = true ∨ c = '-' ∧ ∃ d ∈ ahead, d.isDigit = true) ∨
      kind ≠ .number ∧ c ∈ kind.signs := by
  unfold Lexer.kindOf? at h
  split_ifs at h with hdigit hminus hoperator hd hmodifier hseparator
  all_goals obtain rfl := Option.some.inj h
  · exact Or.inl ⟨rfl, Or.inl hdigit⟩
  · exact Or.inl ⟨rfl, Or.inr ⟨hminus.1, by simpa [Option.any_eq_true] using hminus.2.2⟩⟩
  · exact Or.inr ⟨by decide, TokenKind.mem_signs_operator_iff.2 hoperator⟩
  · exact Or.inr ⟨by decide, by rcases hd with rfl | rfl <;> decide⟩
  · exact Or.inr ⟨by decide, TokenKind.mem_signs_modifier_iff.2 hmodifier⟩
  · exact Or.inr ⟨by decide, by rw [hseparator]; decide⟩

/-- The characters of a longest run are of its class. -/
theorem of_mem_takeWhile {inClass : Char → Bool} {cs : List Char} {c : Char}
    (h : c ∈ cs.takeWhile inClass) : inClass c = true :=
  List.all_eq_true.1 List.all_takeWhile c h

/-- A longest run of spaces consists of as many spaces. -/
theorem takeWhile_space (cs : List Char) :
    cs.takeWhile (· == ' ') = List.replicate (cs.takeWhile (· == ' ')).length ' ' := by
  refine List.eq_replicate_iff.2 ⟨rfl, fun c hc => ?_⟩
  simpa using of_mem_takeWhile hc

/-- The characters of a token are the text of a piece. -/
theorem exists_piece {kind : TokenKind} {c : Char} {cs : List Char} {previous : Option TokenKind}
    (h : Lexer.kindOf? previous c cs.head? = some kind) :
    ∃ p : Piece, p.kind = kind ∧ p.text = Lexer.content kind c cs := by
  -- the spaces behind `w` characters of `cs`
  let n (w : List Char) := ((cs.drop w.length).takeWhile (· == ' ')).length
  set run := cs.takeWhile Char.isDigit
  rcases eq_number_or_mem_signs h with ⟨rfl, hdigit | ⟨rfl, d, hd, hdigit⟩⟩ | ⟨hne, hmem⟩
  · refine ⟨⟨.number, _, n run, @TokenKind.Spells.number false (c :: run) (by simp) ?_⟩, rfl, ?_⟩
    · intro e he
      rcases List.mem_cons.1 he with rfl | he
      · exact hdigit
      · exact of_mem_takeWhile he
    · exact congrArg (c :: run ++ ·) (takeWhile_space _).symm
  · refine ⟨⟨.number, _, n run, @TokenKind.Spells.number true run ?_ fun _ => of_mem_takeWhile⟩,
      rfl, ?_⟩
    · cases cs with
      | nil => simp at hd
      | cons e es =>
        obtain rfl : e = d := by simpa using hd
        simp [run, hdigit]
    · exact congrArg ('-' :: run ++ ·) (takeWhile_space _).symm
  · refine ⟨⟨kind, [c], n [], .sign hmem⟩, rfl, ?_⟩
    simp only [Lexer.content, if_neg hne]
    exact congrArg (c :: ·) (takeWhile_space _).symm

/-- A text that is read to its end consists of pieces, whose tokens are read. -/
theorem exists_pieces {l : Lexer} {ts : List Token} {stop : Token} (h : 0 ≤ l.cursor.pos)
    (hitems : l.items = ts.map .ok ++ [.ok stop]) :
    ∃ ps, place l.cursor.pos ps = ts ∧ textOf ps = l.cursor.rest := by
  fun_induction Lexer.items l generalizing ts with
  | case1 l e hnext => cases ts <;> simp at hitems
  | case2 l t l' hnext ht =>
    obtain rfl : ts = [] := by
      cases ts with
      | nil => rfl
      | cons => simp at hitems
    have hstep := l.step_next
    rw [hnext] at hstep
    cases hstep with
    | start hneg => omega
    | stop _ hr => exact ⟨[], rfl, hr.symm⟩
    | token _ _ hk =>
      cases ht
      exact absurd hk Lexer.kindOf?_ne_eof
  | case3 l t l' hnext ht ih =>
    cases ts with
    | nil => simp [Lexer.items_ne_nil] at hitems
    | cons u ts =>
      obtain ⟨rfl, htail⟩ : t = u ∧ l'.items = ts.map .ok ++ [.ok stop] := by simpa using hitems
      have hstep := l.step_next
      rw [hnext] at hstep
      cases hstep with
      | start hneg => omega
      | stop => exact absurd rfl ht
      | @token c cs kind _ hr hk =>
        obtain ⟨p, rfl, htext⟩ := exists_piece hk
        have hpos : 0 ≤ (l.behind (Lexer.content p.kind c cs).length p.kind).cursor.pos := by
          rw [Lexer.behind_pos]
          omega
        obtain ⟨ps, hplace, hrest⟩ := ih hpos htail
        refine ⟨p :: ps, ?_, ?_⟩
        · rw [place, ← hplace, Lexer.behind_pos, Piece.token, htext]
        · rw [textOf_cons, htext, hrest, ← Lexer.rest_eq_content_append h hr]

/-- Every token of a text is a start, an end, or the token of a piece. -/
theorem exists_piece_of_mem_items {l : Lexer} {t : Token} (h : .ok t ∈ l.items) :
    t.kind = .sof ∨ t.kind = .eof ∨ ∃ (p : Piece) (pos : Int), p.token pos = t := by
  fun_induction Lexer.items l with
  | case1 l e hnext => simp at h
  | case2 l u l' hnext hu =>
    obtain rfl : t = u := by simpa using h
    exact Or.inr (Or.inl hu)
  | case3 l u l' hnext hu ih =>
    rcases List.mem_cons.1 h with heq | hmem
    · obtain rfl : t = u := Except.ok.inj heq
      have hstep := l.step_next
      rw [hnext] at hstep
      cases hstep with
      | start hneg => exact Or.inl rfl
      | stop => exact Or.inr (Or.inl rfl)
      | token _ _ hk =>
        obtain ⟨p, rfl, htext⟩ := exists_piece hk
        exact Or.inr (Or.inr ⟨p, l.cursor.pos, by rw [Piece.token, htext]⟩)
    · exact ih hmem

end Grammar

end DiceNotation
