import DiceNotation.Proofs.Streams.Lookahead

set_option autoImplicit false

/-!
# Tokens cover their text

Reading a text loses nothing. The start takes the spaces that the text begins with, every other
token stands right behind the one in front of it and holds the characters at its places, and what is
read last, the end or a failure, stands right behind the last token.

## Main definitions

* `Token.Covers` — the content of a token is what the text has at the places of the token.
* `Tiles` — tokens that cover a part of a text without gaps.
* `StopsAt` — what is met behind the last token: the end of the text, or a failure.

## Main results

* `Tiles.flatMap_content` — the contents of such tokens make up that part of the text.
* `Tiles.endPos_add_one` — each of the tokens ends right in front of the next one.
* `Lexer.items_tile` — the items from any place of a text on are tokens without gaps, and a stop.
* `FixedStream.nextNth_eq_ahead` — reading past some tokens yields what was seen ahead.
* `Lookahead.nextNth_tiles` — what a buffered text yields, item by item, covers the text.
-/

namespace DiceNotation

/-! ## Tokens without gaps -/

/-- The token stands at the places from `a` to the one in front of `b`, and its content is what the
text has there. -/
structure Token.Covers (t : Token) (text : List Char) (a b : Nat) : Prop where
  /-- Its first character stands at `a`. -/
  startPos : t.startPos = a
  /-- Its last character stands in front of `b`. -/
  endPos : t.endPos = b - 1
  /-- It has a character. -/
  lt : a < b
  /-- Its characters are characters of the text. -/
  le : b ≤ text.length
  /-- They are the ones at these places. -/
  content : t.content.toList = text.extract a b

/-- The tokens cover the text from place `a` up to place `b`: each begins where the one in front of it
has ended. -/
inductive Tiles (text : List Char) : Nat → List Token → Nat → Prop
  | nil (a : Nat) : Tiles text a [] a
  | cons {a b c : Nat} {t : Token} {ts : List Token} (ht : t.Covers text a b)
    (hts : Tiles text b ts c) : Tiles text a (t :: ts) c

/-- What is met at place `b`, where no further token begins: the end of the text, or the character
there, which begins no token. -/
inductive StopsAt (text : List Char) : Nat → Item → Prop
  | ended : StopsAt text text.length (.ok (Token.eof text.length))
  | unknown {b : Nat} {c : Char} (hc : text[b]? = some c) : StopsAt text b (.error ⟨c, b⟩)

/-- A token that covers places of a text has a content. -/
theorem Token.Covers.content_ne_empty {t : Token} {text : List Char} {a b : Nat}
    (h : t.Covers text a b) : t.content ≠ "" := by
  intro hempty
  have hlen := congrArg List.length h.content
  have hlt := h.lt
  have hle := h.le
  simp only [hempty, String.toList_empty, List.length_nil, List.length_take, List.length_drop]
    at hlen
  omega

namespace Tiles

variable {text : List Char} {a b : Nat} {ts : List Token}

/-- Tokens that cover a part of a text go forward. -/
theorem le (h : Tiles text a ts b) : a ≤ b := by
  induction h with
  | nil => exact Nat.le_refl _
  | cons ht _ ih => exact Nat.le_trans (Nat.le_of_lt ht.lt) ih

/-- The contents of tokens that cover a part of a text make up that part. -/
theorem flatMap_content (h : Tiles text a ts b) :
    ts.flatMap (·.content.toList) = text.extract a b := by
  induction h with
  | nil => simp
  | @cons a b c t ts ht hts ih =>
    have hab := ht.lt
    have hbc := hts.le
    have hlen : c - a = (b - a) + (c - b) := by omega
    have hdrop : (text.drop a).drop (b - a) = text.drop b := by
      rw [List.drop_drop, Nat.add_sub_cancel' (Nat.le_of_lt hab)]
    rw [List.flatMap_cons, ih, ht.content, List.extract, List.extract, List.extract, hlen,
      List.take_add, hdrop]

/-- Each of the tokens has a content. -/
theorem content_ne_empty (h : Tiles text a ts b) {t : Token} (ht : t ∈ ts) : t.content ≠ "" := by
  induction h with
  | nil => simp at ht
  | cons hcovers _ ih =>
    rcases List.mem_cons.1 ht with rfl | hmem
    · exact hcovers.content_ne_empty
    · exact ih hmem

/-- If a token ends in front of the covered part and another one begins behind it, then the first of
two tokens in a row ends right in front of the second one. -/
theorem endPos_add_one {first stop t u : Token} {us vs : List Token} (h : Tiles text a ts b)
    (hfirst : first.endPos + 1 = a) (hstop : stop.startPos = b)
    (hsplit : first :: ts ++ [stop] = us ++ t :: u :: vs) : t.endPos + 1 = u.startPos := by
  induction h generalizing first us with
  | nil a =>
    match us with
    | [] =>
      obtain ⟨rfl, rfl, -⟩ : first = t ∧ stop = u ∧ [] = vs := by simpa using hsplit
      rw [hfirst, hstop]
    | [_] | _ :: _ :: _ =>
      have hlen := congrArg List.length hsplit
      simp only [List.length_append, List.length_cons, List.length_nil] at hlen
      omega
  | @cons a b c tile ts htile hts ih =>
    cases us with
    | nil =>
      obtain ⟨rfl, rfl, -⟩ : first = t ∧ tile = u ∧ ts ++ [stop] = vs := by simpa using hsplit
      rw [hfirst, htile.startPos]
    | cons v us =>
      have hends : tile.endPos + 1 = b := by rw [htile.endPos]; omega
      exact ih hends hstop (List.cons.inj hsplit).2

end Tiles

/-! ## The items of a text -/

namespace Lexer

/-- No character begins a start. -/
theorem kindOf?_ne_sof {previous : Option TokenKind} {c : Char} {ahead : Option Char} :
    kindOf? previous c ahead ≠ some .sof := by
  unfold kindOf?
  split_ifs <;> simp

/-- The characters that a lexer takes for a token are those at the places of the token. -/
theorem covers_content {text : List Char} {a : Nat} {c : Char} {cs : List Char}
    (hdrop : text.drop a = c :: cs) (kind : TokenKind) :
    Token.Covers ⟨kind, String.ofList (content kind c cs), a, a + (content kind c cs).length - 1⟩
      text a (a + (content kind c cs).length) := by
  have hsplit := content_append_drop kind c cs
  have hlen := congrArg List.length (hdrop.trans hsplit.symm)
  have hpos := content_length_pos kind c cs
  rw [List.length_append, List.length_drop] at hlen
  refine ⟨rfl, rfl, by omega, by omega, ?_⟩
  rw [String.toList_ofList, List.extract, Nat.add_sub_cancel_left, hdrop, ← hsplit, List.take_left]

/-- The items from a place of a text on are tokens without gaps, neither starts nor ends, and what is
met behind them.

**Proof sketch.** Induction along the items. A token takes characters from the front of what lies
ahead, and the lexer behind it stands behind these characters. -/
theorem items_tile {text : List Char} {a : Nat} {l : Lexer} (hcursor : l.cursor = Cursor.place text a)
    (ha : a ≤ text.length) :
    ∃ ts b x, l.items = ts.map .ok ++ [x] ∧ Tiles text a ts b ∧ StopsAt text b x ∧
      ∀ t ∈ ts, t.kind ≠ .sof ∧ t.kind ≠ .eof := by
  have hrest : l.cursor.rest = text.drop a := by rw [hcursor]; rfl
  have hpos : l.cursor.pos = a := by rw [hcursor]; rfl
  fun_induction items l generalizing a with
  | case1 l e hnext =>
    have hstep := l.step_next
    rw [hnext] at hstep
    cases hstep with
    | @unknown c cs _ hr =>
      have hc : text[a]? = some c := by rw [← List.head?_drop, ← hrest, hr, List.head?_cons]
      exact ⟨[], a, _, rfl, .nil a, hpos ▸ .unknown hc, by simp⟩
  | case2 l t l' hnext ht =>
    have hstep := l.step_next
    rw [hnext] at hstep
    cases hstep with
    | start hneg => omega
    | stop _ hr =>
      obtain rfl : a = text.length := by
        have hlen := congrArg List.length (hrest.symm.trans hr)
        rw [List.length_drop, List.length_nil] at hlen
        omega
      exact ⟨[], text.length, _, rfl, .nil _, hpos ▸ .ended, by simp⟩
    | token _ _ hk =>
      cases ht
      exact absurd hk kindOf?_ne_eof
  | case3 l t l' hnext ht ih =>
    have hstep := l.step_next
    rw [hnext] at hstep
    cases hstep with
    | start hneg => omega
    | stop => exact absurd rfl ht
    | @token c cs kind _ hr hk =>
      have hcovers := covers_content (hrest.symm.trans hr) kind
      have hbehind : (l.behind (content kind c cs).length kind).cursor =
          Cursor.place text (a + (content kind c cs).length : Nat) := by
        rw [behind, Cursor.behind, hcursor]
        rfl
      obtain ⟨ts, b, x, hitems, htiles, hstops, hkinds⟩ :=
        ih hbehind hcovers.le (by rw [hbehind]; rfl) (by rw [hbehind]; rfl)
      refine ⟨_ :: ts, b, x, by rw [hitems]; rfl, .cons (hpos ▸ hcovers) htiles, hstops,
        List.forall_mem_cons.2 ⟨⟨?_, ht⟩, hkinds⟩⟩
      rintro rfl
      exact kindOf?_ne_sof hk

/-- The items of a whole text are its start, tokens without gaps behind the spaces that the text
begins with, and what is met behind them. -/
theorem items_ofText_tile (text : List Char) :
    ∃ ts b x, (ofText text).items = .ok (startOf text) :: ts.map .ok ++ [x] ∧
      Tiles text (text.takeWhile (· == ' ')).length ts b ∧ StopsAt text b x ∧
      ∀ t ∈ ts, t.kind ≠ .sof ∧ t.kind ≠ .eof := by
  obtain ⟨ts, b, x, hitems, htiles⟩ := items_tile
    (l := ⟨Cursor.place text (text.takeWhile (· == ' ')).length, none⟩) rfl
    (List.takeWhile_prefix _).length_le
  exact ⟨ts, b, x, by rw [items_ofText_eq, hitems]; rfl, htiles⟩

/-- The content of the start and of the tokens behind it is the text up to where they end. -/
theorem flatMap_content_startOf {text : List Char} {b : Nat} {ts : List Token}
    (h : Tiles text (text.takeWhile (· == ' ')).length ts b) :
    (startOf text :: ts).flatMap (·.content.toList) = text.take b := by
  set k := (text.takeWhile (· == ' ')).length with hk
  have hspaces : text.takeWhile (· == ' ') = text.take k :=
    List.prefix_iff_eq_take.1 (List.takeWhile_prefix _)
  have hb : b = k + (b - k) := by have := h.le; omega
  rw [List.flatMap_cons, h.flatMap_content, hb, List.take_add, ← hb, List.extract, startOf,
    Token.sofWith, String.toList_ofList, hspaces]

/-- Only the last item is a failure, so a failure is followed by itself. -/
theorem ahead_of_error {l : Lexer} {i j : Nat} {e : UnknownToken} (hij : i ≤ j)
    (h : nthOrLast l.items i = some (.error e)) : nthOrLast l.items j = some (.error e) := by
  obtain ⟨ts, x, hitems, -, -⟩ := l.items_eq_append
  rw [hitems] at h ⊢
  rcases Nat.lt_or_ge i (ts.map Except.ok : List Item).length with hi | hi
  · rw [nthOrLast_append_of_lt _ hi, nthOrLast_of_lt hi] at h
    simp at h
  · rw [nthOrLast_append_singleton hi] at h
    rw [nthOrLast_append_singleton (Nat.le_trans hi hij), h]

end Lexer

/-! ## Reading past tokens -/

namespace FixedStream

/-- If a failure is followed by itself only, reading past some tokens yields what was seen ahead. -/
theorem nextNth_eq_ahead {s : FixedStream}
    (h : ∀ i j e, i ≤ j → s.ahead i = .error e → s.ahead j = .error e) (n : Nat) :
    (TokenStream.nextNth s n).1 = s.ahead n := by
  induction n generalizing s with
  | zero =>
    rw [TokenStream.nextNth]
    cases hzero : s.ahead 0 with
    | ok t => rw [next_of_ok hzero]
    | error e => rw [next_of_error hzero]
  | succ n ih =>
    rw [TokenStream.nextNth]
    cases hzero : s.ahead 0 with
    | ok t =>
      have hbehind : ∀ i j e, i ≤ j → (s.behind 1).ahead i = .error e →
          (s.behind 1).ahead j = .error e := by
        intro i j e hij
        rw [ahead_behind, ahead_behind]
        exact h (1 + i) (1 + j) e (by omega)
      rw [next_of_ok hzero]
      simp only
      rw [ih hbehind, ahead_behind, Nat.add_comm]
    | error e =>
      rw [next_of_error hzero]
      exact (h 0 (n + 1) e (by omega) hzero).symm

end FixedStream

namespace Lookahead

/-- A buffered text yields its items one after the other, the last one again and again. -/
theorem nextNth_ofLexer (l : Lexer) (n : Nat) :
    some (TokenStream.nextNth (ofLexer l) n).1 = nthOrLast l.items n := by
  have hahead (i : Nat) := FixedStream.some_ahead (FixedStream.ofItems l.items l.items_ne_nil) i
  simp only [FixedStream.ofItems, Nat.zero_add] at hahead
  rw [(simulation.nextNth (shows_items l) n).1, FixedStream.nextNth_eq_ahead, FixedStream.ofItems,
    hahead]
  intro i j e hij hi
  have herror := Lexer.ahead_of_error hij ((hahead i).symm.trans (congrArg some hi))
  exact Option.some.inj ((hahead j).trans herror)

/-- **Tokens cover their text.** What a buffered text yields, item by item, is its start with the
spaces that the text begins with, tokens without gaps behind them, and the end of the text or a failure,
which is repeated for ever. The contents of all tokens make up the text up to that stop. From any
place of a text the same is yielded for what comes there, without a start.

**Proof sketch.** The buffered text yields its items. The items behind the start are tokens without
gaps, and the contents of tokens without gaps make up the part of the text that they cover. -/
theorem nextNth_tiles (text : List Char) :
    (∃ ts b x, (∀ n, some (TokenStream.nextNth (ofText text) n).1 =
        nthOrLast (.ok (Lexer.startOf text) :: ts.map .ok ++ [x]) n) ∧
      Tiles text (text.takeWhile (· == ' ')).length ts b ∧ StopsAt text b x ∧
      (∀ t ∈ ts, t.kind ≠ .sof ∧ t.kind ≠ .eof ∧ t.content ≠ "") ∧
      (Lexer.startOf text :: ts).flatMap (·.content.toList) = text.take b) ∧
    ∀ a ≤ text.length, ∃ ts b x, (∀ n, some (TokenStream.nextNth (ofPlace text a) n).1 =
        nthOrLast (ts.map .ok ++ [x]) n) ∧
      Tiles text a ts b ∧ StopsAt text b x ∧
      (∀ t ∈ ts, t.kind ≠ .sof ∧ t.kind ≠ .eof ∧ t.content ≠ "") ∧
      ts.flatMap (·.content.toList) = text.extract a b := by
  constructor
  · obtain ⟨ts, b, x, hitems, htiles, hstops, hkinds⟩ := Lexer.items_ofText_tile text
    refine ⟨ts, b, x, fun n => hitems ▸ nextNth_ofLexer (Lexer.ofText text) n, htiles, hstops,
      fun t ht => ?_, Lexer.flatMap_content_startOf htiles⟩
    obtain ⟨hsof, heof⟩ := hkinds t ht
    exact ⟨hsof, heof, htiles.content_ne_empty ht⟩
  · intro a ha
    obtain ⟨ts, b, x, hitems, htiles, hstops, hkinds⟩ :=
      Lexer.items_tile (l := ⟨Cursor.place text a, none⟩) rfl ha
    refine ⟨ts, b, x, fun n => hitems ▸ nextNth_ofLexer ⟨Cursor.place text a, none⟩ n, htiles,
      hstops, fun t ht => ?_, htiles.flatMap_content⟩
    obtain ⟨hsof, heof⟩ := hkinds t ht
    exact ⟨hsof, heof, htiles.content_ne_empty ht⟩

/-- From the second character of ` d6?` on the tokens cover `d6`, and the failure behind them is at the
last character. -/
theorem nextNth_tiles_sample :
    ∃ (ts : List Token) (b : Nat), Tiles [' ', 'd', '6', '?'] 1 ts b ∧
      StopsAt [' ', 'd', '6', '?'] b (.error ⟨'?', 3⟩) ∧
      ts.flatMap (·.content.toList) = [' ', 'd', '6', '?'].extract 1 b := by
  have hfailure : (TokenStream.nextNth (ofPlace [' ', 'd', '6', '?'] 1) 2).1 = .error ⟨'?', 3⟩ := by
    decide +kernel
  obtain ⟨-, hplaces⟩ := nextNth_tiles [' ', 'd', '6', '?']
  obtain ⟨ts, b, x, hitems, htiles, hstops, -, hcontent⟩ := hplaces 1 (by decide)
  refine ⟨ts, b, htiles, ?_, hcontent⟩
  have hitem : some (.error ⟨'?', 3⟩) = nthOrLast (ts.map .ok ++ [x]) 2 := by
    rw [← hitems 2, ← hfailure]
    rfl
  rcases Nat.lt_or_ge 2 (ts.map Except.ok : List Item).length with hlt | hge
  · rw [nthOrLast_append_of_lt _ hlt, nthOrLast_of_lt hlt] at hitem
    simp at hitem
  · rw [nthOrLast_append_singleton hge] at hitem
    exact Option.some.inj hitem ▸ hstops

end Lookahead

end DiceNotation
