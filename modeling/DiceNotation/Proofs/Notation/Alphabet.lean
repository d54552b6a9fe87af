import DiceNotation.Proofs.Lexing.Tiling
import DiceNotation.Proofs.Notation.Pieces

set_option autoImplicit false

/-!
# The alphabet

Texts are written with few characters. Which tokens a text has up to a character depends on what stands
around it, but whether the text can be read at all up to there does not: tokens consist of characters
of the alphabet, and reading fails at no character of it. So reading a text fails at its first
character that is not in the alphabet.

## Main definitions

* `inAlphabet` — whether texts are written with a character.
* `Lexer.Respects` — what the alphabet says of an item.
* `Lexer.Extent` — how far a text can be read.

## Main results

* `Lexer.kindOf?_eq_none` — a character that begins no token is a space or not in the alphabet.
* `Lexer.respects_of_mem_items` — the items of a text respect the alphabet.
* `Lexer.exists_extent` — a text can be read up to its first character that is not in the alphabet.
-/

namespace DiceNotation

/-! ## Characters -/

/-- Whether texts are written with the character: a digit, a sign or the space. -/
def inAlphabet (c : Char) : Bool :=
  c.isDigit || ['+', '-', 'd', 'D', 'H', 'L', 'h', 'l', 'e', ';', ' '].contains c

/-- Units of one character are written with characters of the alphabet. -/
theorem inAlphabet_of_mem_signs {kind : TokenKind} {c : Char} (h : c ∈ kind.signs) :
    inAlphabet c = true := by
  have hall : kind.signs.all inAlphabet = true := by cases kind <;> decide
  exact List.all_eq_true.1 hall c h

/-- The text of a piece is written with characters of the alphabet. -/
theorem Grammar.Piece.inAlphabet_of_mem {p : Piece} {c : Char} (h : c ∈ p.text) :
    inAlphabet c = true := by
  rcases List.mem_append.1 h with hmem | hmem
  · rcases p.spells.of_mem hmem with ⟨-, rfl | hdigit⟩ | hsign
    · decide
    · rw [inAlphabet, hdigit, Bool.true_or]
    · exact inAlphabet_of_mem_signs hsign
  · obtain rfl := List.eq_of_mem_replicate hmem
    decide

namespace Lexer

/-- A character that begins no token is a space or not in the alphabet. -/
theorem kindOf?_eq_none {previous : Option TokenKind} {c : Char} {ahead : Option Char}
    (h : kindOf? previous c ahead = none) : c = ' ' ∨ inAlphabet c = false := by
  unfold kindOf? at h
  split_ifs at h with hdigit _ hoperator hd hmodifier hseparator
  by_cases hc : c ∈ ['+', '-', 'd', 'D', 'H', 'L', 'h', 'l', 'e', ';', ' ']
  · simp only [List.mem_cons, List.not_mem_nil, or_false] at hc
    rcases hc with rfl | rfl | rfl | rfl | rfl | rfl | rfl | rfl | rfl | rfl | rfl
    · exact absurd rfl hoperator
    · exact absurd rfl hoperator
    · exact absurd (Or.inl rfl) hd
    · exact absurd (Or.inr rfl) hd
    · exact absurd rfl hmodifier
    · exact absurd rfl hmodifier
    · exact absurd rfl hmodifier
    · exact absurd rfl hmodifier
    · exact absurd rfl hmodifier
    · exact absurd rfl hseparator
    · exact Or.inl rfl
  · exact Or.inr (by simpa [inAlphabet, hdigit] using hc)

/-- The characters of a token are in the alphabet. -/
theorem inAlphabet_of_mem_content {kind : TokenKind} {previous : Option TokenKind} {c : Char}
    {cs : List Char} (h : kindOf? previous c cs.head? = some kind) {d : Char}
    (hd : d ∈ content kind c cs) : inAlphabet d = true := by
  obtain ⟨p, -, htext⟩ := Grammar.exists_piece h
  exact p.inAlphabet_of_mem (htext ▸ hd)

/-- Behind the spaces that a text begins with comes no space. -/
theorem head?_drop_spaces (cs : List Char) :
    (cs.drop (cs.takeWhile (· == ' ')).length).head? ≠ some ' ' := by
  have hdrop : cs.drop (cs.takeWhile (· == ' ')).length = cs.dropWhile (· == ' ') :=
    List.append_cancel_left ((List.prefix_iff_eq_append.1 (List.takeWhile_prefix _)).trans
      List.takeWhile_append_dropWhile.symm)
  intro hhead
  have hnot := List.head?_dropWhile_not (· == ' ') cs
  rw [← hdrop, hhead] at hnot
  simp at hnot

/-- Behind the characters of a token comes no space. -/
theorem head?_drop_content (kind : TokenKind) (c : Char) (cs : List Char) :
    ((c :: cs).drop (content kind c cs).length).head? ≠ some ' ' := by
  simp only [content, List.cons_append, List.length_cons, List.drop_succ_cons, List.length_append,
    ← List.drop_drop]
  exact head?_drop_spaces _

/-! ## Items -/

/-- What the alphabet says of an item: a token consists of characters of the alphabet, and no failure
is at such a character. -/
def Respects : Item → Prop
  | .ok t => ∀ c ∈ t.content.toList, inAlphabet c = true
  | .error e => inAlphabet e.char = false

/-- The items from a place of a text on, where no space stands, respect the alphabet.

**Proof sketch.** Induction along the items. No space comes behind a token, so a character that begins
none is not in the alphabet. -/
theorem respects_of_mem_items {l : Lexer} (hpos : 0 ≤ l.cursor.pos)
    (hspace : l.cursor.rest.head? ≠ some ' ') {x : Item} (hx : x ∈ l.items) : Respects x := by
  fun_induction items l with
  | case1 l e hnext =>
    obtain rfl := List.mem_singleton.1 hx
    have hstep := l.step_next
    rw [hnext] at hstep
    cases hstep with
    | @unknown c cs _ hr hk =>
      rw [hr, List.head?_cons, ne_eq, Option.some.injEq] at hspace
      exact (kindOf?_eq_none hk).resolve_left hspace
  | case2 l t l' hnext ht =>
    obtain rfl := List.mem_singleton.1 hx
    have hstep := l.step_next
    rw [hnext] at hstep
    cases hstep with
    | start hneg => omega
    | stop => simp [Respects, Token.eof]
    | token _ _ hk =>
      cases ht
      exact absurd hk kindOf?_ne_eof
  | case3 l t l' hnext ht ih =>
    have hstep := l.step_next
    rw [hnext] at hstep
    cases hstep with
    | start hneg => omega
    | stop => exact absurd rfl ht
    | @token c cs kind _ hr hk =>
      rcases List.mem_cons.1 hx with rfl | hmem
      · intro d hd
        exact inAlphabet_of_mem_content hk (by simpa using hd)
      · refine ih ?_ ?_ hmem
        · rw [behind_pos]
          omega
        · rw [behind, Cursor.behind_rest hpos, hr]
          exact head?_drop_content kind c cs

/-- How far a text can be read: behind its start the tokens `ts` cover it up to place `b`, where `x` is
met. -/
structure Extent (text : List Char) (ts : List Token) (b : Nat) (x : Item) : Prop where
  /-- These are the items of the text. -/
  items_eq : (ofText text).items = .ok (startOf text) :: ts.map .ok ++ [x]
  /-- Behind the spaces that the text begins with the tokens have no gaps. -/
  tiles : Tiles text (text.takeWhile (· == ' ')).length ts b
  /-- What is met is the end of the text or the character there. -/
  stops : StopsAt text b x
  /-- The characters up to there are in the alphabet. -/
  front : ∀ c ∈ text.take b, inAlphabet c = true
  /-- The character there is not. -/
  respects : Respects x

/-- A text can be read up to its first character that is not in the alphabet, or to its end. -/
theorem exists_extent (text : List Char) : ∃ ts b x, Extent text ts b x := by
  obtain ⟨ts, b, x, hitems, htiles, hstops, -⟩ := items_ofText_tile text
  have hbehind {y : Item} (hy : y ∈ ts.map Except.ok ++ [x]) : Respects y := by
    have hitems' := items_ofText_eq text
    rw [hitems, List.cons_append, List.cons.injEq] at hitems'
    exact respects_of_mem_items (Int.natCast_nonneg _) (head?_drop_spaces text) (hitems'.2 ▸ hy)
  refine ⟨ts, b, x, hitems, htiles, hstops, fun c hc => ?_, hbehind (by simp)⟩
  rw [← flatMap_content_startOf htiles, List.flatMap_cons] at hc
  rcases List.mem_append.1 hc with hmem | hmem
  · rw [startOf, Token.sofWith, String.toList_ofList] at hmem
    have hspace := Grammar.of_mem_takeWhile hmem
    rw [beq_iff_eq.1 hspace]
    decide
  · obtain ⟨t, ht, hmem⟩ := List.mem_flatMap.1 hmem
    exact @hbehind (.ok t) (List.mem_append_left _ (List.mem_map_of_mem ht)) c hmem

end Lexer

end DiceNotation
