import DiceNotation.TokenStream
import Mathlib.Tactic.Common

set_option autoImplicit false

/-!
# The items of a text

What a lexer reads from where it stands, one token after the other, up to the first end of the text
or the first character that begins no token. The module says once what reading one token does;
what holds of all items follows from it by induction.

## Main definitions

* `Cursor.behind`, `Lexer.behind` — a cursor or a lexer a number of characters further on.
* `Lexer.content` — the characters of the token at the front of a list of characters.
* `Lexer.Step` — the ways in which reading one token can end.
* `Lexer.items` — the items ahead.
* `Lexer.startOf` — the start of a text.

## Main results

* `Lexer.step_next` — reading a token ends in one of these ways, with these outcomes.
* `Lexer.next_size_lt` — a token in front of the end brings the lexer nearer to the end.
* `Lexer.items_eq_append` — only the last item is an end or a failure.
* `Lexer.items_ofText_eq` — the items of a whole text begin with its start.

## Implementation notes

Behind the start of a text, a lexer is described by its place, the characters ahead and the kind of
the token read last. `Lexer.behind` changes just these three, and keeps the text.
-/

namespace DiceNotation

/-! ## Cursors further on -/

namespace Cursor

/-- The cursor `n` places further on. -/
def behind (c : Cursor) (n : Nat) : Cursor :=
  place c.text (c.pos + n)

@[simp] theorem behind_pos (c : Cursor) (n : Nat) : (c.behind n).pos = c.pos + n :=
  rfl

/-- In a text, going on leaves out the characters that are passed. -/
theorem behind_rest {c : Cursor} (h : 0 ≤ c.pos) (n : Nat) :
    (c.behind n).rest = c.rest.drop n := by
  have hn : (c.pos + n).toNat = c.pos.toNat + n := by omega
  simp only [behind, place, c.rest_eq, List.drop_drop, hn]

/-- Going on twice is going on once. -/
theorem behind_behind (c : Cursor) (m n : Nat) : (c.behind m).behind n = c.behind (m + n) :=
  ext_pos rfl (by simp only [behind_pos]; omega)

/-- The next character of a text. -/
theorem peek_eq_head? {c : Cursor} (h : 0 ≤ c.pos) : c.peek = c.rest.head? :=
  if_neg (by omega)

/-- The character behind the next one. -/
theorem peekNth_one {c : Cursor} (h : 0 ≤ c.pos) : c.peekNth 1 = c.rest[1]? := by
  have hb : (-c.pos).toNat = 0 := by omega
  simp [peekNth, hb, outOfReach]

/-- Moving past a character of a text. -/
theorem consume_cons {c : Cursor} {ch : Char} {cs : List Char} (h : 0 ≤ c.pos)
    (hr : c.rest = ch :: cs) : c.consume = (some ch, c.behind 1) := by
  unfold consume
  rw [dif_neg (by omega)]
  split
  next hnil => simp [hr] at hnil
  next ch' cs' hcons =>
    obtain ⟨rfl, rfl⟩ := List.cons.inj (hr.symm.trans hcons)
    exact congrArg _ (ext_pos rfl (by simp))

/-- Before the text, moving on is a silent step. -/
theorem consume_of_neg {c : Cursor} (h : c.pos < 0) : c.consume = (none, c.behind 1) := by
  unfold consume
  rw [dif_pos h]
  exact congrArg _ (ext_pos rfl (by simp))

/-- Moving past a run of characters of a text. -/
theorem takeWhile_eq {c : Cursor} (h : 0 ≤ c.pos) (p : Char → Bool) :
    c.takeWhile p = (c.rest.takeWhile p, c.behind (c.rest.takeWhile p).length) := by
  unfold takeWhile
  rw [dif_neg (by omega)]
  exact congrArg _ (ext_pos rfl (by simp))

/-- Before the text there is no run of characters. -/
theorem takeWhile_of_neg {c : Cursor} (h : c.pos < 0) (p : Char → Bool) :
    c.takeWhile p = ([], c) :=
  dif_pos h

end Cursor

/-! ## Reading one token -/

namespace Lexer

/-- The characters of a token of kind `kind` at the front of `c :: cs`: the first one, for a number
the digits behind it, and the spaces behind these. -/
def content (kind : TokenKind) (c : Char) (cs : List Char) : List Char :=
  let digits := if kind = .number then cs.takeWhile Char.isDigit else []
  c :: digits ++ (cs.drop digits.length).takeWhile (· == ' ')

/-- The lexer `n` characters further on, where the token read last is of kind `kind`. -/
def behind (l : Lexer) (n : Nat) (kind : TokenKind) : Lexer :=
  ⟨l.cursor.behind n, some kind⟩

@[simp] theorem behind_pos (l : Lexer) (n : Nat) (kind : TokenKind) :
    (l.behind n kind).cursor.pos = l.cursor.pos + n :=
  rfl

@[simp] theorem behind_previous (l : Lexer) (n : Nat) (kind : TokenKind) :
    (l.behind n kind).previous = some kind :=
  rfl

/-- The characters ahead of a lexer that stands behind `w` are those behind `w`. -/
theorem behind_rest {l : Lexer} (h : 0 ≤ l.cursor.pos) {w tail : List Char}
    (hr : l.cursor.rest = w ++ tail) (kind : TokenKind) :
    (l.behind w.length kind).cursor.rest = tail := by
  rw [behind, Cursor.behind_rest h, hr, List.drop_left]

/-- The token of a known kind in a text, and the lexer behind it. -/
theorem tokenOf_eq {l : Lexer} {c : Char} {cs : List Char} (h : 0 ≤ l.cursor.pos)
    (hr : l.cursor.rest = c :: cs) (kind : TokenKind) :
    l.tokenOf kind =
      (⟨kind, String.ofList (content kind c cs), l.cursor.pos,
        l.cursor.pos + (content kind c cs).length - 1⟩,
        l.behind (content kind c cs).length kind) := by
  have hpos (n : Nat) : 0 ≤ (l.cursor.behind n).pos := by rw [Cursor.behind_pos]; omega
  have hrest (n : Nat) : (l.cursor.behind (1 + n)).rest = cs.drop n := by
    rw [Cursor.behind_rest h, hr, Nat.add_comm, List.drop_succ_cons]
  unfold tokenOf content behind
  set digits := if kind = .number then cs.takeWhile Char.isDigit else [] with hdigits
  have hrun : (if kind = .number then (l.cursor.behind 1).takeWhile Char.isDigit
      else ([], l.cursor.behind 1)) = (digits, l.cursor.behind (1 + digits.length)) := by
    rw [hdigits]
    split_ifs
    · rw [Cursor.takeWhile_eq (hpos 1), hrest 0, List.drop_zero, Cursor.behind_behind]
    · rfl
  simp only [Cursor.consume_cons h hr, hrun]
  simp only [Cursor.takeWhile_eq (hpos _), hrest, Cursor.behind_behind, Cursor.behind_pos,
    Option.toList_some, List.singleton_append, List.length_append, List.length_cons,
    Nat.add_comm digits.length 1]

/-- The token one step before a text, and the lexer behind the spaces that the text begins with. -/
theorem startToken_eq {l : Lexer} (h : l.cursor.pos = -1) :
    l.startToken =
      (Token.sofWith (String.ofList (l.cursor.rest.takeWhile (· == ' ')))
        ((l.cursor.rest.takeWhile (· == ' ')).length - 1),
        ⟨l.cursor.behind (1 + (l.cursor.rest.takeWhile (· == ' ')).length), l.previous⟩) := by
  have hpos : 0 ≤ (l.cursor.behind 1).pos := by rw [Cursor.behind_pos, h]; decide
  have hrest : (l.cursor.behind 1).rest = l.cursor.rest := by
    simp [Cursor.behind, Cursor.place, l.cursor.rest_eq, h]
  simp only [startToken, Cursor.consume_of_neg (show l.cursor.pos < 0 by omega),
    Cursor.takeWhile_eq hpos, hrest, Cursor.behind_behind, Cursor.behind_pos, h]
  congr 2
  split_ifs <;> omega

/-- Further out before a text there is only the silent step. -/
theorem startToken_of_lt {l : Lexer} (h : l.cursor.pos < -1) :
    l.startToken = (Token.sof, ⟨l.cursor.behind 1, l.previous⟩) := by
  have hpos : (l.cursor.behind 1).pos < 0 := by rw [Cursor.behind_pos]; omega
  simp only [startToken, Cursor.consume_of_neg (show l.cursor.pos < 0 by omega),
    Cursor.takeWhile_of_neg hpos, if_neg (show ¬ 0 < (l.cursor.behind 1).pos by omega)]
  rfl

/-! ## The ways in which reading a token can end -/

/-- What reading one token from `l` yields. -/
inductive Step (l : Lexer) : Except UnknownToken (Token × Lexer) → Prop
  /-- Before the text: the start token. -/
  | start (h : l.cursor.pos < 0) : Step l (.ok l.startToken)
  /-- Behind the text: the end token, and the lexer stays. -/
  | stop (h : 0 ≤ l.cursor.pos) (hr : l.cursor.rest = []) :
    Step l (.ok (Token.eof l.cursor.pos, l))
  /-- At a character that begins no token: a failure. -/
  | unknown {c : Char} {cs : List Char} (h : 0 ≤ l.cursor.pos) (hr : l.cursor.rest = c :: cs)
    (hk : kindOf? l.previous c cs.head? = none) : Step l (.error ⟨c, l.cursor.pos⟩)
  /-- At a character that begins a token of kind `kind`: that token. -/
  | token {c : Char} {cs : List Char} {kind : TokenKind} (h : 0 ≤ l.cursor.pos)
    (hr : l.cursor.rest = c :: cs) (hk : kindOf? l.previous c cs.head? = some kind) :
    Step l (.ok (⟨kind, String.ofList (content kind c cs), l.cursor.pos,
        l.cursor.pos + (content kind c cs).length - 1⟩, l.behind (content kind c cs).length kind))

/-- Reading a token yields one of these outcomes. -/
theorem step_next (l : Lexer) : Step l l.next := by
  unfold next
  by_cases h : l.cursor.pos < 0
  · rw [Cursor.isStart, decide_eq_true h, if_pos rfl]
    exact .start h
  rw [Cursor.isStart, decide_eq_false h, if_neg (by simp)]
  have h0 : 0 ≤ l.cursor.pos := by omega
  rw [Cursor.peek_eq_head? h0, Cursor.peekNth_one h0]
  cases hr : l.cursor.rest with
  | nil => exact .stop h0 hr
  | cons c cs =>
    simp only [List.head?_cons, List.getElem?_cons_succ, ← List.head?_eq_getElem?]
    cases hk : kindOf? l.previous c cs.head? with
    | none => exact .unknown h0 hr hk
    | some kind =>
      simp only [tokenOf_eq h0 hr]
      exact .token h0 hr hk

/-- A token takes at least its first character. -/
theorem content_length_pos (kind : TokenKind) (c : Char) (cs : List Char) :
    0 < (content kind c cs).length := by
  simp [content]

/-- The characters of a token are those at the front of the text. -/
theorem content_append_drop (kind : TokenKind) (c : Char) (cs : List Char) :
    content kind c cs ++ (c :: cs).drop (content kind c cs).length = c :: cs := by
  set digits := if kind = .number then cs.takeWhile Char.isDigit else [] with hdigits
  have hd : digits ++ cs.drop digits.length = cs := by
    rw [hdigits]
    split_ifs
    · exact List.prefix_iff_eq_append.1 (List.takeWhile_prefix _)
    · rfl
  have hs := List.prefix_iff_eq_append.1
    (List.takeWhile_prefix (l := cs.drop digits.length) (· == ' '))
  rw [List.drop_drop] at hs
  simp only [content, ← hdigits, List.cons_append, List.length_cons, List.drop_succ_cons,
    List.length_append, List.append_assoc]
  rw [hs, hd]

/-- What lies ahead of a token are its characters and those ahead of the lexer behind it. -/
theorem rest_eq_content_append {l : Lexer} {c : Char} {cs : List Char} (h : 0 ≤ l.cursor.pos)
    (hr : l.cursor.rest = c :: cs) (kind : TokenKind) :
    l.cursor.rest = content kind c cs ++ (l.behind (content kind c cs).length kind).cursor.rest := by
  rw [behind, Cursor.behind_rest h, hr, content_append_drop]

/-- Before a text the start token brings the lexer nearer to the end of the text. -/
theorem startToken_size_lt {l : Lexer} (h : l.cursor.pos < 0) : l.startToken.2.size < l.size := by
  by_cases h1 : l.cursor.pos = -1
  · have hrest (n : Nat) : (l.cursor.behind (1 + n)).rest.length ≤ l.cursor.rest.length := by
      simp only [Cursor.behind, Cursor.place, l.cursor.rest_eq, List.length_drop]
      omega
    rw [startToken_eq h1]
    have := hrest (l.cursor.rest.takeWhile (· == ' ')).length
    simp only [size, Cursor.behind_pos]
    omega
  · have hrest : (l.cursor.behind 1).rest.length ≤ l.cursor.rest.length := by
      simp only [Cursor.behind, Cursor.place, l.cursor.rest_eq, List.length_drop]
      omega
    rw [startToken_of_lt (by omega)]
    simp only [size, Cursor.behind_pos]
    omega

/-- A token in front of the end brings the lexer nearer to the end of the text. -/
theorem next_size_lt {l l' : Lexer} {t : Token} (h : l.next = .ok (t, l')) (ht : t.kind ≠ .eof) :
    l'.size < l.size := by
  have hstep := l.step_next
  rw [h] at hstep
  cases hstep with
  | start hs => exact startToken_size_lt hs
  | stop => exact absurd rfl ht
  | @token c cs kind h0 hr hk =>
    have hlen := congrArg List.length (rest_eq_content_append h0 hr kind)
    have hpos := content_length_pos kind c cs
    rw [List.length_append] at hlen
    simp only [size, behind_pos]
    omega

/-- No character begins an end token. -/
theorem kindOf?_ne_eof {previous : Option TokenKind} {c : Char} {ahead : Option Char} :
    kindOf? previous c ahead ≠ some .eof := by
  unfold kindOf?
  split_ifs <;> simp

/-- At the end of a text the lexer stays where it is. -/
theorem eq_of_next_eof {l l' : Lexer} {t : Token} (h : l.next = .ok (t, l')) (ht : t.kind = .eof) :
    l' = l := by
  have hstep := l.step_next
  rw [h] at hstep
  cases hstep with
  | start => cases ht
  | stop => rfl
  | token _ _ hk =>
    cases ht
    exact absurd hk kindOf?_ne_eof

/-! ## All items ahead -/

/-- The items ahead, one token after the other: up to the first end of the text, or up to the first
character that begins no token. -/
def items (l : Lexer) : List Item :=
  match _h : l.next with
  | .error e => [.error e]
  | .ok (t, l') => if _ht : t.kind = .eof then [.ok t] else .ok t :: l'.items
termination_by l.size
decreasing_by exact next_size_lt _h _ht

/-- At a character that begins no token, the failure is the only item. -/
theorem items_of_error {l : Lexer} {e : UnknownToken} (h : l.next = .error e) :
    l.items = [.error e] := by
  rw [items]
  split
  next e' he => rw [h] at he; cases he; rfl
  next t l' ht => rw [h] at ht; cases ht

/-- At the end of a text, the end is the only item. -/
theorem items_of_eof {l l' : Lexer} {t : Token} (h : l.next = .ok (t, l')) (ht : t.kind = .eof) :
    l.items = [.ok t] := by
  rw [items]
  split
  next e he => rw [h] at he; cases he
  next t' l'' he =>
    rw [h] at he
    cases he
    exact dif_pos ht

/-- In front of the end of a text, the items are the next token and the items behind it. -/
theorem items_of_token {l l' : Lexer} {t : Token} (h : l.next = .ok (t, l')) (ht : t.kind ≠ .eof) :
    l.items = .ok t :: l'.items := by
  rw [items]
  split
  next e he => rw [h] at he; cases he
  next t' l'' he =>
    rw [h] at he
    cases he
    exact dif_neg ht

/-- An item that nothing is read behind: the end of the text or a failure. -/
def IsLast : Item → Prop
  | .ok t => t.kind = .eof
  | .error _ => True

/-- The items are tokens in front of the end, and then the end or a failure.

**Proof sketch.** Induction along the items. A failure and an end stand alone; any other token
comes in front of what the lexer behind it reads. -/
theorem items_eq_append (l : Lexer) :
    ∃ (ts : List Token) (x : Item), l.items = ts.map .ok ++ [x] ∧ IsLast x ∧
      ∀ t ∈ ts, t.kind ≠ .eof := by
  fun_induction items l with
  | case1 l e h => exact ⟨[], .error e, rfl, trivial, by simp⟩
  | case2 l t l' h ht => exact ⟨[], .ok t, rfl, ht, by simp⟩
  | case3 l t l' h ht ih =>
    obtain ⟨ts, x, hts, hx, hne⟩ := ih
    refine ⟨t :: ts, x, by rw [hts]; rfl, hx, ?_⟩
    intro u hu
    rcases List.mem_cons.1 hu with rfl | hu
    · exact ht
    · exact hne u hu

/-- There always is an item ahead. -/
theorem items_ne_nil (l : Lexer) : l.items ≠ [] := by
  obtain ⟨ts, x, h, -, -⟩ := l.items_eq_append
  rw [h]
  simp

/-- The size of a lexer bounds the number of items ahead. -/
theorem items_length_le_size (l : Lexer) : l.items.length ≤ l.size := by
  fun_induction items l with
  | case1 l e h => simp [size]
  | case2 l t l' h ht => simp [size]
  | case3 l t l' h ht ih =>
    have hlt := next_size_lt h ht
    rw [List.length_cons]
    omega

/-- The start of a text, with the spaces that the text begins with. -/
def startOf (text : List Char) : Token :=
  Token.sofWith (String.ofList (text.takeWhile (· == ' '))) ((text.takeWhile (· == ' ')).length - 1)

/-- The items of a whole text: its start, and what is read behind the spaces that the text begins
with. -/
theorem items_ofText_eq (text : List Char) :
    (ofText text).items =
      .ok (startOf text) :: items ⟨Cursor.place text (text.takeWhile (· == ' ')).length, none⟩ := by
  have hnext : (ofText text).next = .ok (ofText text).startToken := rfl
  have hbehind : (Cursor.start text).behind (1 + (text.takeWhile (· == ' ')).length) =
      Cursor.place text (text.takeWhile (· == ' ')).length := by
    refine Cursor.ext_pos rfl ?_
    simp only [Cursor.behind_pos, Cursor.start, Cursor.place]
    omega
  have hpos : (ofText text).cursor.pos = -1 := rfl
  rw [startToken_eq hpos] at hnext
  have hitems := items_of_token hnext (by simp [Token.sofWith])
  exact hitems.trans (congrArg (fun c => .ok (startOf text) :: items ⟨c, none⟩) hbehind)

/-- The items of a whole text: a start, and what is read behind the spaces that the text begins
with. -/
theorem items_ofText (text : List Char) :
    ∃ start : Token, start.kind = .sof ∧ (ofText text).items =
      .ok start :: items ⟨Cursor.place text (text.takeWhile (· == ' ')).length, none⟩ :=
  ⟨startOf text, rfl, items_ofText_eq text⟩

end Lexer

end DiceNotation
