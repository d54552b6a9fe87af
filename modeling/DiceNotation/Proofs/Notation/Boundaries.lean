import DiceNotation.Proofs.Lexing.Tiling
import DiceNotation.Proofs.Notation.Pieces

set_option autoImplicit false

/-!
# Where pieces end

A text does not show where its pieces end. A number goes on as long as there are digits, and a minus in
front of a digit belongs to a number wherever an operand can stand. So pieces that are written one
behind the other are read back as they were written only if no piece runs into the next one. What may
stand behind a piece depends on the piece itself and, for a minus, on what stands in front of it.

## Main definitions

* `Grammar.Piece.Admits` — another piece may stand directly behind a piece.
* `Grammar.WellFormed` — each of several pieces admits the one behind it.
* `Grammar.Piece.ReadIn` — a piece is read as itself between what stands around it.
* `Grammar.reading` — the items that some spaces and pieces should be read as.

## Main results

* `Grammar.next_eq_iff_readIn` — when the lexer reads a piece as itself.
* `Grammar.items_eq_iff_wellFormed` — when it reads all of several pieces as themselves.
* `Grammar.items_ofText_eq_reading_iff` — which texts are read as given pieces, and which texts can be
  read at all.
-/

namespace DiceNotation

namespace Grammar

/-! ## What may stand behind a piece -/

/-- Behind a unit of this kind no operand can stand. -/
def EndsOperand (kind : Option TokenKind) : Prop :=
  kind = some .number ∨ kind = some .modifier

namespace Piece

/-- The piece is a number with a minus. -/
def IsNegative (p : Piece) : Prop :=
  p.kind = .number ∧ p.chars.head? = some '-'

/-- The piece is a number that begins with a digit. -/
def IsUnsigned (p : Piece) : Prop :=
  p.kind = .number ∧ ∃ c ∈ p.chars.head?, c.isDigit = true

/-- The piece is the operator for subtracting. -/
def IsMinus (p : Piece) : Prop :=
  p.kind = .operator ∧ p.chars = ['-']

/-- The piece `q` may stand directly behind the piece `p`, in front of which stands a unit of kind
`before`. -/
structure Admits (before : Option TokenKind) (p q : Piece) : Prop where
  /-- Behind a number or a modifier, a minus would subtract. -/
  negative : q.IsNegative → ¬ EndsOperand (some p.kind)
  /-- Without spaces between them, digits would go on a number, and they would make a minus part of a
  number where an operand can stand. -/
  unsigned : q.IsUnsigned → p.spaces = 0 → p.kind ≠ .number ∧ (p.IsMinus → EndsOperand before)

/-- Behind a unit of kind `previous` and in front of the character `next`, the piece is read as
itself. -/
structure ReadIn (p : Piece) (previous : Option TokenKind) (next : Option Char) : Prop where
  /-- The minus of a number stands where an operand can stand. -/
  negative : p.IsNegative → ¬ EndsOperand previous
  /-- If a digit follows at once, the piece is no number, and a minus only where no operand can
  stand. -/
  digit : p.spaces = 0 → (∃ c ∈ next, c.isDigit = true) →
    p.kind ≠ .number ∧ (p.IsMinus → EndsOperand previous)

end Piece

/-- Each of several pieces admits the one behind it, where a unit of kind `before` stands in front of
all of them. -/
def WellFormed : Option TokenKind → List Piece → Prop
  | before, p :: q :: ps => p.Admits before q ∧ WellFormed (some p.kind) (q :: ps)
  | _, _ => True

/-- The items that some spaces and pieces behind them should be read as: the start with the spaces, the
tokens of the pieces, and the end. -/
def reading (spaces : Nat) (ps : List Piece) : List Item :=
  .ok (Token.sofWith (String.ofList (List.replicate spaces ' ')) (spaces - 1)) ::
    (place spaces ps).map .ok ++ [.ok (Token.eof (spaces + (textOf ps).length))]

/-! ## One piece -/

/-- A run of characters of a class is the longest one if a character outside the class follows. -/
theorem takeWhile_run {inClass : Char → Bool} {run tail : List Char}
    (hrun : ∀ c ∈ run, inClass c = true) (htail : ∀ c ∈ tail.head?, inClass c = false) :
    (run ++ tail).takeWhile inClass = run := by
  rw [List.takeWhile_append_of_pos hrun]
  cases tail with
  | nil => simp
  | cons c cs => simp [htail c rfl]

/-- The characters of a token end where neither digits nor spaces follow. -/
theorem content_eq {kind : TokenKind} {c : Char} {ds tail : List Char} (n : Nat)
    (hds : kind = .number ∧ (∀ d ∈ ds, d.isDigit = true) ∨ kind ≠ .number ∧ ds = [])
    (hspace : ∀ d ∈ tail.head?, d ≠ ' ')
    (hdigit : n = 0 → kind = .number → ∀ d ∈ tail.head?, d.isDigit = false) :
    Lexer.content kind c (ds ++ (List.replicate n ' ' ++ tail)) =
      c :: ds ++ List.replicate n ' ' := by
  have hdigits : (if kind = .number then
      (ds ++ (List.replicate n ' ' ++ tail)).takeWhile Char.isDigit else []) = ds := by
    rcases hds with ⟨hk, hds⟩ | ⟨hk, rfl⟩
    · rw [if_pos hk]
      apply takeWhile_run hds
      intro d hd
      cases n with
      | zero => exact hdigit rfl hk d (by simpa using hd)
      | succ n =>
        obtain rfl : ' ' = d := by simpa [List.replicate_succ] using hd
        decide
    · rw [if_neg hk]
  have hspaces : (List.replicate n ' ' ++ tail).takeWhile (· == ' ') = List.replicate n ' ' := by
    apply takeWhile_run
    · intro d hd
      simp [(List.mem_replicate.1 hd).2]
    · intro d hd
      simpa using hspace d hd
  simp only [Lexer.content, hdigits, List.drop_left, hspaces]

/-- A character of a kind begins a token of the kind, whatever stands around it, unless it is an
operator. -/
theorem kindOf?_of_mem_signs {kind : TokenKind} {c : Char} (hc : c ∈ kind.signs)
    (hne : kind ≠ .operator) (previous : Option TokenKind) (ahead : Option Char) :
    Lexer.kindOf? previous c ahead = some kind := by
  cases kind
  all_goals simp only [TokenKind.signs, List.mem_cons, List.not_mem_nil, or_false] at hc
  case dSymbol => rcases hc with rfl | rfl <;> rfl
  case modifier => rcases hc with rfl | rfl | rfl | rfl | rfl <;> rfl
  case separator => subst hc; rfl
  case operator => exact absurd rfl hne

/-- The lexer expects no operand behind the units that end one. -/
theorem startsOperand_iff {kind : Option TokenKind} :
    Lexer.startsOperand kind = true ↔ ¬ EndsOperand kind := by
  unfold Lexer.startsOperand EndsOperand
  split <;> simp_all

/-- A minus in front of a digit belongs to a number where an operand can stand. Any other minus is an
operator. -/
theorem kindOf?_minus (previous : Option TokenKind) (ahead : Option Char) :
    Lexer.kindOf? previous '-' ahead =
      if Lexer.startsOperand previous = true ∧ ahead.any Char.isDigit = true
        then some .number else some .operator := by
  simp [Lexer.kindOf?, Operator.ofChar?]

/-- The first character of a piece tells the kind of the piece, unless the character is a minus that is
taken for the other kind. -/
theorem Piece.kindOf?_eq_some_iff {p : Piece} {c : Char} {ds : List Char} (hchars : p.chars = c :: ds)
    (previous : Option TokenKind) (tail : List Char) :
    Lexer.kindOf? previous c (ds ++ (List.replicate p.spaces ' ' ++ tail)).head? = some p.kind ↔
      (p.IsNegative → ¬ EndsOperand previous) ∧
        (p.spaces = 0 → (∃ d ∈ tail.head?, d.isDigit = true) → p.IsMinus → EndsOperand previous) := by
  obtain ⟨kind, chars, spaces, hspells⟩ := p
  subst hchars
  generalize hcs : c :: ds = chars at hspells
  cases hspells with
  | @number negative digits hne hdigits =>
    cases negative with
    | false =>
      obtain rfl : c :: ds = digits := by simpa using hcs
      have hc : c.isDigit = true := hdigits c List.mem_cons_self
      have hminus : c ≠ '-' := by rintro rfl; exact absurd hc (by decide)
      simp [Lexer.kindOf?, hc, IsNegative, IsMinus, hminus]
    | true =>
      obtain ⟨rfl, rfl⟩ : c = '-' ∧ ds = digits := by simpa using hcs
      obtain ⟨d, es, rfl⟩ := List.exists_cons_of_ne_nil hne
      have hd : d.isDigit = true := hdigits d List.mem_cons_self
      simp [kindOf?_minus, hd, startsOperand_iff, IsNegative, IsMinus]
  | @sign _ e he =>
    obtain ⟨rfl, rfl⟩ : c = e ∧ ds = [] := by simpa using hcs
    by_cases hoperator : kind = .operator
    · subst hoperator
      simp only [TokenKind.signs, List.mem_cons, List.not_mem_nil, or_false] at he
      rcases he with rfl | rfl
      · simp [Lexer.kindOf?, Operator.ofChar?, IsNegative, IsMinus]
      · cases spaces with
        | zero =>
          by_cases hends : EndsOperand previous <;> cases tail <;>
            simp [kindOf?_minus, startsOperand_iff, IsNegative, IsMinus, hends]
        | succ n => simp [kindOf?_minus, IsNegative, List.replicate_succ]
    · have hnumber : kind ≠ .number := by rintro rfl; simp [TokenKind.signs] at he
      simp [kindOf?_of_mem_signs he hoperator, IsNegative, IsMinus, hnumber, hoperator]

/-- The characters of a token are those of a piece, unless the piece is a number that a digit follows
at once. -/
theorem Piece.content_eq_text_iff {p : Piece} {c : Char} {ds tail : List Char}
    (hchars : p.chars = c :: ds) (hspace : ∀ d ∈ tail.head?, d ≠ ' ') :
    Lexer.content p.kind c (ds ++ (List.replicate p.spaces ' ' ++ tail)) = p.text ↔
      (p.spaces = 0 → (∃ d ∈ tail.head?, d.isDigit = true) → p.kind ≠ .number) := by
  have hds := TokenKind.Spells.of_cons (hchars ▸ p.spells)
  constructor
  · rintro hcontent hspaces ⟨d, hd, hdigit⟩ hnumber
    obtain ⟨es, rfl⟩ : ∃ es, tail = d :: es := List.head?_eq_some_iff.1 hd
    have hdigits : ∀ e ∈ ds, e.isDigit = true := by
      rcases hds with ⟨-, hdigits⟩ | ⟨hne, -⟩
      · exact hdigits
      · exact absurd hnumber hne
    have hlen := congrArg List.length hcontent
    simp [Lexer.content, hnumber, Piece.text, hchars, hspaces, List.takeWhile_append_of_pos hdigits,
      hdigit] at hlen
  · intro hdigit
    rw [content_eq p.spaces hds hspace, Piece.text, hchars]
    intro hspaces hnumber d hd
    by_contra htrue
    exact hdigit hspaces ⟨d, hd, by simpa using htrue⟩ hnumber

/-- From a piece the lexer reads the token of the piece exactly if the piece is read as itself between
what stands around it. -/
theorem next_eq_iff_readIn {l : Lexer} {p : Piece} {tail : List Char} (h : 0 ≤ l.cursor.pos)
    (hrest : l.cursor.rest = p.text ++ tail) (hspace : ∀ c ∈ tail.head?, c ≠ ' ') :
    l.next = .ok (p.token l.cursor.pos, l.behind p.text.length p.kind) ↔
      p.ReadIn l.previous tail.head? := by
  obtain ⟨c, ds, hchars⟩ := List.exists_cons_of_ne_nil p.spells.ne_nil
  have hcons : l.cursor.rest = c :: (ds ++ (List.replicate p.spaces ' ' ++ tail)) := by
    simp only [hrest, Piece.text, hchars, List.cons_append, List.append_assoc]
  have hkind := p.kindOf?_eq_some_iff hchars l.previous tail
  have hcontent := p.content_eq_text_iff hchars hspace
  have hreads : p.ReadIn l.previous tail.head? ↔
      Lexer.kindOf? l.previous c (ds ++ (List.replicate p.spaces ' ' ++ tail)).head? = some p.kind ∧
        Lexer.content p.kind c (ds ++ (List.replicate p.spaces ' ' ++ tail)) = p.text := by
    rw [hkind, hcontent]
    constructor
    · rintro ⟨hnegative, hdigit⟩
      exact ⟨⟨hnegative, fun hs hd => (hdigit hs hd).2⟩, fun hs hd => (hdigit hs hd).1⟩
    · rintro ⟨⟨hnegative, hminus⟩, hnumber⟩
      exact ⟨hnegative, fun hs hd => ⟨hnumber hs hd, hminus hs hd⟩⟩
  rw [hreads]
  have hstep := l.step_next
  generalize l.next = r at hstep
  cases hstep with
  | start hneg => omega
  | stop _ hnil => simp [hcons] at hnil
  | unknown _ hr hk =>
    obtain ⟨rfl, rfl⟩ := List.cons.inj (hcons.symm.trans hr)
    constructor
    · intro hnext
      cases hnext
    · rintro ⟨hk', -⟩
      exact absurd (hk'.symm.trans hk) (by simp)
  | @token _ _ kind _ hr hk =>
    obtain ⟨rfl, rfl⟩ := List.cons.inj (hcons.symm.trans hr)
    constructor
    · intro hnext
      have htoken := (Prod.mk.inj (Except.ok.inj hnext)).1
      obtain rfl : kind = p.kind := congrArg Token.kind htoken
      exact ⟨hk, String.ofList_injective (congrArg Token.content htoken)⟩
    · rintro ⟨hk', hcontent'⟩
      obtain rfl := Option.some.inj (hk.symm.trans hk')
      rw [hcontent']
      rfl

/-- A token of a piece that is read stands behind its own characters. -/
theorem eq_behind_of_next {l l' : Lexer} {p : Piece} (h : 0 ≤ l.cursor.pos)
    (hnext : l.next = .ok (p.token l.cursor.pos, l')) : l' = l.behind p.text.length p.kind := by
  have hstep := l.step_next
  rw [hnext] at hstep
  generalize ht : p.token l.cursor.pos = t at hstep
  cases hstep with
  | start hneg => omega
  | stop => exact absurd (congrArg Token.kind ht) p.spells.kind_ne_eof
  | @token c cs kind _ hr hk =>
    obtain rfl : p.kind = kind := congrArg Token.kind ht
    have htext : p.text = Lexer.content p.kind c cs :=
      String.ofList_injective (congrArg Token.content ht)
    rw [htext]

/-- The first item is the token of a piece exactly if the lexer reads it, and then the other items come
from behind the piece. -/
theorem items_eq_cons_iff {l : Lexer} {p : Piece} {xs : List Item} (h : 0 ≤ l.cursor.pos) :
    l.items = .ok (p.token l.cursor.pos) :: xs ↔
      l.next = .ok (p.token l.cursor.pos, l.behind p.text.length p.kind) ∧
        (l.behind p.text.length p.kind).items = xs := by
  have hne : (p.token l.cursor.pos).kind ≠ .eof := p.spells.kind_ne_eof
  constructor
  · intro hitems
    cases hnext : l.next with
    | error e =>
      rw [Lexer.items_of_error hnext] at hitems
      cases hitems
    | ok r =>
      obtain ⟨t, l'⟩ := r
      by_cases ht : t.kind = .eof
      · rw [Lexer.items_of_eof hnext ht] at hitems
        obtain rfl := Except.ok.inj (List.cons.inj hitems).1
        exact absurd ht hne
      · rw [Lexer.items_of_token hnext ht] at hitems
        obtain ⟨htoken, rfl⟩ := List.cons.inj hitems
        obtain rfl := Except.ok.inj htoken
        obtain rfl := eq_behind_of_next h hnext
        exact ⟨rfl, rfl⟩
  · rintro ⟨hnext, rfl⟩
    exact Lexer.items_of_token hnext hne

/-! ## Pieces one behind the other -/

/-- A digit that a piece begins with is that of a number. -/
theorem Piece.isUnsigned_iff {p : Piece} :
    p.IsUnsigned ↔ ∃ c ∈ p.chars.head?, c.isDigit = true := by
  refine and_iff_right_of_imp ?_
  rintro ⟨c, hc, hdigit⟩
  rcases p.spells.of_mem (List.mem_of_mem_head? hc) with ⟨hnumber, -⟩ | hsign
  · exact hnumber
  · simp [(TokenKind.ne_space_of_mem_signs hsign).2] at hdigit

/-- The characters of pieces begin with that of the first piece. -/
theorem head?_textOf_cons (p : Piece) (ps : List Piece) :
    (textOf (p :: ps)).head? = p.chars.head? := by
  obtain ⟨c, cs, hchars⟩ := List.exists_cons_of_ne_nil p.spells.ne_nil
  simp [Piece.text, hchars]

/-- The characters of pieces do not begin with a space. -/
theorem ne_space_of_mem_head?_textOf {ps : List Piece} {c : Char} (h : c ∈ (textOf ps).head?) :
    c ≠ ' ' := by
  cases ps with
  | nil => simp at h
  | cons p ps =>
    rw [head?_textOf_cons] at h
    exact p.spells.ne_space (List.mem_of_mem_head? h)

/-- Pieces are well-formed, and a minus of the first one stands where an operand can stand, exactly if
the first one is read as itself in front of the others and the same holds of the others. -/
theorem wellFormed_cons_iff {before : Option TokenKind} {p : Piece} {ps : List Piece} :
    (p.IsNegative → ¬ EndsOperand before) ∧ WellFormed before (p :: ps) ↔
      p.ReadIn before (textOf ps).head? ∧
        (∀ q ∈ ps.head?, q.IsNegative → ¬ EndsOperand (some p.kind)) ∧
          WellFormed (some p.kind) ps := by
  cases ps with
  | nil =>
    constructor
    · rintro ⟨hnegative, -⟩
      exact ⟨⟨hnegative, by simp⟩, by simp, trivial⟩
    · rintro ⟨hread, -, -⟩
      exact ⟨hread.negative, trivial⟩
  | cons q qs =>
    rw [head?_textOf_cons]
    constructor
    · rintro ⟨hnegative, hadmits, hothers⟩
      refine ⟨⟨hnegative, fun hspaces hdigit => ?_⟩, ?_, hothers⟩
      · exact hadmits.unsigned (Piece.isUnsigned_iff.2 hdigit) hspaces
      · simpa using hadmits.negative
    · rintro ⟨hread, hnegative, hothers⟩
      refine ⟨hread.negative, ⟨hnegative q rfl, fun hunsigned hspaces => ?_⟩, hothers⟩
      exact hread.digit hspaces (Piece.isUnsigned_iff.1 hunsigned)

/-- Pieces that stand where the lexer expects them are well-formed, whatever spaces are between them. -/
theorem Chain.wellFormed {before : Option TokenKind} {ps : List Piece} (h : Chain before ps) :
    WellFormed before ps := by
  induction ps generalizing before with
  | nil => trivial
  | cons p ps ih =>
    cases ps with
    | nil => trivial
    | cons q qs =>
      obtain ⟨hp, hchain⟩ := h
      have hq : q.kind = .number → ¬ EndsOperand (some p.kind) :=
        fun hnumber => startsOperand_iff.1 (hchain.1.1 hnumber)
      refine ⟨⟨fun hnegative => hq hnegative.1, fun hunsigned _ => ⟨?_, fun hminus => ?_⟩⟩, ih hchain⟩
      · exact fun hnumber => hq hunsigned.1 (Or.inl (congrArg some hnumber))
      · by_contra hends
        exact absurd (startsOperand_iff.2 hends) (by simp [hp.2 hminus.1])

/-- From the place of several pieces the lexer reads the tokens of the pieces and the end of the text
exactly if each piece admits the one behind it, and the first piece is no number with a minus where no
operand can stand.

**Proof sketch.** Induction along the pieces. Whether a piece is read as itself depends on the kind in
front of it and on the first character behind it, which is a digit only if a number without a minus
comes next. -/
theorem items_eq_iff_wellFormed {l : Lexer} {ps : List Piece} (h : 0 ≤ l.cursor.pos)
    (hrest : l.cursor.rest = textOf ps) :
    l.items = (place l.cursor.pos ps).map .ok ++
        [.ok (Token.eof (l.cursor.pos + (textOf ps).length))] ↔
      (∀ p ∈ ps.head?, p.IsNegative → ¬ EndsOperand l.previous) ∧ WellFormed l.previous ps := by
  induction ps generalizing l with
  | nil =>
    have hstop : l.next = .ok (Token.eof l.cursor.pos, l) := by
      have hstep := l.step_next
      generalize l.next = r at hstep
      cases hstep with
      | start hneg => omega
      | stop => rfl
      | unknown _ hr | token _ hr => simp [hrest] at hr
    rw [Lexer.items_of_eof hstop rfl]
    simp [place, WellFormed]
  | cons p ps ih =>
    have hpos : 0 ≤ (l.behind p.text.length p.kind).cursor.pos := by
      rw [Lexer.behind_pos]
      omega
    have hbehind := ih hpos (Lexer.behind_rest h hrest p.kind)
    have hnext := next_eq_iff_readIn h hrest fun _ => ne_space_of_mem_head?_textOf
    simp only [place, List.map_cons, List.cons_append]
    rw [items_eq_cons_iff h, hnext]
    simp only [Lexer.behind_pos, textOf_cons, List.length_append, Int.natCast_add,
      Int.add_assoc] at hbehind ⊢
    rw [hbehind]
    simp only [List.head?_cons, Option.mem_def, Option.some.injEq, forall_eq', Lexer.behind_previous]
    exact wellFormed_cons_iff.symm

/-! ## Whole texts -/

/-- The tokens of pieces hold the characters of the pieces. -/
theorem flatMap_content_place (pos : Int) (ps : List Piece) :
    (place pos ps).flatMap (·.content.toList) = textOf ps := by
  induction ps generalizing pos with
  | nil => rfl
  | cons p ps ih => rw [place, List.flatMap_cons, ih, textOf_cons, Piece.token, String.toList_ofList]

/-- What spaces and pieces should be read as tells the text of them. -/
theorem text_eq_of_reading_eq {m n : Nat} {ps qs : List Piece} (h : reading m ps = reading n qs) :
    List.replicate m ' ' ++ textOf ps = List.replicate n ' ' ++ textOf qs := by
  obtain ⟨hstart, hbehind⟩ := List.cons.inj h
  obtain ⟨hplaced, -⟩ := List.append_inj' hbehind rfl
  have hspaces : List.replicate m ' ' = List.replicate n ' ' :=
    String.ofList_injective (congrArg Token.content (Except.ok.inj hstart))
  have htokens : place m ps = place n qs :=
    List.map_inj_right (fun _ _ => Except.ok.inj) |>.1 hplaced
  rw [hspaces, ← flatMap_content_place m ps, htokens, flatMap_content_place]

/-- Some spaces and pieces are read as such exactly if each piece admits the one behind it. -/
theorem items_ofText_append_iff (spaces : Nat) (ps : List Piece) :
    (Lexer.ofText (List.replicate spaces ' ' ++ textOf ps)).items = reading spaces ps ↔
      WellFormed none ps := by
  set text := List.replicate spaces ' ' ++ textOf ps with htext
  have hrun : text.takeWhile (· == ' ') = List.replicate spaces ' ' := by
    apply takeWhile_run
    · intro c hc
      simp [(List.mem_replicate.1 hc).2]
    · intro c hc
      simpa using ne_space_of_mem_head?_textOf hc
  have hrest : (Cursor.place text spaces).rest = textOf ps := by
    simp [Cursor.place, htext]
  have hitems := items_eq_iff_wellFormed (l := ⟨Cursor.place text spaces, none⟩)
    (Int.natCast_nonneg _) hrest
  rw [Lexer.items_ofText_eq, Lexer.startOf, hrun, List.length_replicate, reading, List.cons_append,
    List.cons.injEq]
  refine (and_iff_right rfl).trans (hitems.trans (and_iff_right ?_))
  rintro p - - (h | h) <;> cases h

/-- A text that is read without a failure is read as the spaces and the pieces that it consists of. -/
theorem exists_items_eq_reading {text : List Char}
    (h : ∀ e, .error e ∉ (Lexer.ofText text).items) :
    ∃ spaces ps, text = List.replicate spaces ' ' ++ textOf ps ∧
      (Lexer.ofText text).items = reading spaces ps := by
  obtain ⟨ts, b, x, hitems, -, hstops, -⟩ := Lexer.items_ofText_tile text
  cases hstops with
  | @unknown b c hc => exact absurd (by rw [hitems]; simp) (h ⟨c, b⟩)
  | ended =>
    set spaces := (text.takeWhile (· == ' ')).length with hspaces
    have hrun : text.takeWhile (· == ' ') = List.replicate spaces ' ' := takeWhile_space text
    have hbehind := Lexer.items_ofText_eq text
    rw [hitems, List.cons_append, List.cons.injEq] at hbehind
    obtain ⟨ps, hplace, hrest⟩ := exists_pieces (l := ⟨Cursor.place text spaces, none⟩)
      (Int.natCast_nonneg _) hbehind.2.symm
    have htext : text = List.replicate spaces ' ' ++ textOf ps := by
      rw [hrest, ← hrun]
      exact (List.prefix_iff_eq_append.1 (List.takeWhile_prefix _)).symm
    refine ⟨spaces, ps, htext, ?_⟩
    have hlen : (text.length : Int) = spaces + (textOf ps).length := by
      rw [htext]
      simp
    have htokens : place spaces ps = ts := hplace
    rw [hitems, reading, Lexer.startOf, ← hspaces, hrun, htokens, ← hlen]

/-- **Reading inverts writing one behind the other.** A text is read as some spaces and pieces exactly if
it consists of them and each piece admits the one behind it. Any text that is read without a failure
consists of some spaces and such pieces.

**Proof sketch.** What a text is read as has the characters of the text. A text that consists of spaces
and pieces is read piece by piece, and the lexer takes each piece for itself exactly if what stands
around the piece lets it. A text that is read without a failure consists of the pieces that are read. -/
theorem items_ofText_eq_reading_iff (text : List Char) :
    (∀ spaces ps, (Lexer.ofText text).items = reading spaces ps ↔
      text = List.replicate spaces ' ' ++ textOf ps ∧ WellFormed none ps) ∧
    ((∀ e, .error e ∉ (Lexer.ofText text).items) ↔
      ∃ spaces ps, text = List.replicate spaces ' ' ++ textOf ps ∧ WellFormed none ps) := by
  have hreads : ∀ spaces ps, (Lexer.ofText text).items = reading spaces ps →
      text = List.replicate spaces ' ' ++ textOf ps ∧ WellFormed none ps := by
    intro spaces ps hitems
    have hreadable : ∀ e, .error e ∉ (Lexer.ofText text).items := by simp [hitems, reading]
    obtain ⟨n, qs, htext, hitems'⟩ := exists_items_eq_reading hreadable
    rw [← text_eq_of_reading_eq (hitems.symm.trans hitems')] at htext
    exact ⟨htext, (items_ofText_append_iff spaces ps).1 (htext ▸ hitems)⟩
  constructor
  · intro spaces ps
    refine ⟨hreads spaces ps, ?_⟩
    rintro ⟨rfl, hwell⟩
    exact (items_ofText_append_iff spaces ps).2 hwell
  · constructor
    · intro h
      obtain ⟨spaces, ps, -, hitems⟩ := exists_items_eq_reading h
      exact ⟨spaces, ps, hreads spaces ps hitems⟩
    · rintro ⟨spaces, ps, rfl, hwell⟩ e
      rw [(items_ofText_append_iff spaces ps).2 hwell]
      simp [reading]

end Grammar

end DiceNotation
