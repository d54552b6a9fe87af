import DiceNotation.Proofs.Errors.Prefixes
import DiceNotation.Proofs.Lexing.Tiling
import DiceNotation.Proofs.Parsing.Reach

set_option autoImplicit false

/-!
# A parser of a text is used once

A text has one start, and whatever comes of the first program, this start has been read by then. So a parser
that is used again finds no start: it blames the next token and goes on behind it, or it shows the character
that ends the tokens of the text, which it never passes.

## Main definitions

* `Parser.after` — a parser that has been used several times.
* `Parser.onText` — a parser in front of a text.
* `FixedStream.readFrom` — how many tokens have been read when reading goes on behind some of them.

## Main results

* `Parser.parse_of_next_ok`, `Parser.parse_of_next_error` — what comes of a program without a start.
* `Lexer.kind_ne_sof_of_ahead` — behind the start of a text there is no other.
* `Parser.shows_after` — how far a parser that is used again and again has read.
* `Parser.parse_again` — what comes of every program but the first one.
-/

namespace DiceNotation

/-! ## Programs without a start -/

namespace Parser

section Stream

variable {σ : Type} [TokenStream σ] {p : Parser σ} {s : σ}

/-- A parser that has been used `n` times. -/
def after (p : Parser σ) : Nat → Parser σ
  | 0 => p
  | n + 1 => (p.after n).parse.2

/-- The outcomes of `n` programs in a row are those of the parser after each of them. -/
theorem parseRepeatedly_eq (p : Parser σ) (n : Nat) :
    p.parseRepeatedly n = (List.range n).map fun i => (p.after i).parse.1 := by
  have hshift (p : Parser σ) (i : Nat) : p.parse.2.after i = p.after (i + 1) := by
    induction i with
    | zero => rfl
    | succ i ih => rw [after, ih]; rfl
  induction n generalizing p with
  | zero => rfl
  | succ n ih =>
    rw [parseRepeatedly, ih, List.range_succ_eq_map, List.map_cons, List.map_map]
    exact congrArg _ (List.map_congr_left fun i _ => by rw [hshift]; rfl)

/-- Where the next token is no start, it is blamed, and the parser goes on behind it. -/
theorem parse_of_next_ok {t : Token} (h : TokenStream.next p.tokens = (.ok t, s))
    (hk : t.kind ≠ .sof) :
    p.parse = (.error (.misplaced (.atToken t .notSof)), ⟨s, some t⟩) := by
  have hadvance : advance p = some (.ok t, ⟨s, some t⟩) := by simp only [advance, h]
  have hexpect : expect .sof .notSof p =
      some (.error (.misplaced (.atToken t .notSof)), ⟨s, some t⟩) := by
    rw [expect, Parse.bind_apply, hadvance]
    simp only [hk, ↓reduceIte]
    rfl
  rw [parse, program, Parse.bind_apply, hexpect]
  rfl

/-- Where the next item is no token, this is what the parser shows. -/
theorem parse_of_next_error {u : UnknownToken} (h : TokenStream.next p.tokens = (.error u, s)) :
    p.parse = (.error (.unknownToken u), { p with tokens := s }) := by
  have hadvance : advance p = some (.error (.unknownToken u), { p with tokens := s }) := by
    simp only [advance, h]
  have hexpect : expect .sof .notSof p = some (.error (.unknownToken u), { p with tokens := s }) := by
    rw [expect, Parse.bind_apply, hadvance]
  rw [parse, program, Parse.bind_apply, hexpect]
  rfl

end Stream

end Parser

/-! ## The start of a text -/

/-- An item that is found in a list is one of its items. -/
theorem mem_of_nthOrLast {α : Type} {l : List α} {n : Nat} {x : α} (h : nthOrLast l n = some x) :
    x ∈ l := by
  rcases Option.or_eq_some_iff.1 h with h | ⟨-, h⟩
  · exact List.mem_of_getElem? h
  · exact List.mem_of_getLast? h

/-- Behind the start of a text there is no other. -/
theorem Lexer.kind_ne_sof_of_ahead {text : List Char} {m : Nat} {t : Token} (hm : 1 ≤ m)
    (h : (Parser.ofText text).tokens.ahead m = .ok t) : t.kind ≠ .sof := by
  obtain ⟨n, rfl⟩ := Nat.exists_eq_add_of_le' hm
  obtain ⟨ts, b, x, hitems, -, hstops, hkinds⟩ := Lexer.items_ofText_tile text
  have hahead : nthOrLast (Lexer.ofText text).items (n + 1) = some (.ok t) := by
    rw [← h, FixedStream.some_ahead]
    simp [Parser.ofText, Parser.ofItems, Parser.ofStream, FixedStream.ofItems]
  obtain ⟨y, l, hbehind⟩ : ∃ y l, ts.map Except.ok ++ [x] = y :: l :=
    List.exists_cons_of_ne_nil (by simp)
  rw [hitems, List.cons_append, hbehind, nthOrLast_cons_succ, ← hbehind] at hahead
  rcases List.mem_append.1 (mem_of_nthOrLast hahead) with hmem | hmem
  · obtain ⟨u, hu, hut⟩ := List.mem_map.1 hmem
    obtain rfl := Except.ok.inj hut
    exact (hkinds u hu).1
  · obtain rfl := List.mem_singleton.1 hmem
    cases hstops
    simp [Token.eof]

/-! ## Using a parser again -/

/-- How many tokens have been read when `n` items more are read behind `k` tokens: reading a failure
reads nothing. -/
def FixedStream.readFrom (f : FixedStream) (k : Nat) : Nat → Nat
  | 0 => k
  | n + 1 =>
    match f.ahead (f.readFrom k n) with
    | .ok _ => f.readFrom k n + 1
    | .error _ => f.readFrom k n

/-- Reading goes on, and never back. -/
theorem FixedStream.le_readFrom (f : FixedStream) (k n : Nat) : k ≤ f.readFrom k n := by
  induction n with
  | zero => exact Nat.le_refl k
  | succ n ih =>
    rw [readFrom]
    split <;> omega

/-- A failure is not passed, and nothing else changes. -/
theorem Lookahead.eq_of_next_error {s s' : Lookahead} {u : UnknownToken}
    (h : TokenStream.next s = (.error u, s')) : s' = s := by
  obtain ⟨lexer, buffer, buffered⟩ := s
  cases buffer with
  | cons t ts => simp [TokenStream.next] at h
  | nil =>
    cases hnext : lexer.next with
    | ok r => simp [TokenStream.next, hnext] at h
    | error e =>
      simp only [TokenStream.next, hnext, Prod.mk.injEq] at h
      exact h.2.symm

namespace Parser

/-- A parser in front of a text. -/
def onText (text : List Char) : Parser Lookahead :=
  ofStream (Lookahead.ofText text)

/-- It answers as a parser in front of the items of the text does. -/
theorem onText_alike (text : List Char) : Alike Lookahead.Shows (onText text) (ofText text) :=
  ⟨Lookahead.shows_items _, rfl⟩

/-- It does not underestimate how many items there are. -/
theorem size_ofText_le (text : List Char) :
    TokenStream.size (ofText text).tokens ≤ TokenStream.size (onText text).tokens :=
  Nat.le_trans (Lexer.ofText text).items_length_le_size (Nat.le_add_left _ _)

/-- The first program, whatever comes of it, has read the start of the text at least. -/
theorem exists_shows_parse (text : List Char) :
    ∃ k, 1 ≤ k ∧ (onText text).parse.2.tokens.Shows
      ((ofText text).tokens.behind k) := by
  obtain ⟨-, hbehind⟩ := parse_alike Lookahead.simulation (onText_alike text) (size_ofText_le text)
  have hstart : (ofText text).tokens.ahead 0 = .ok (Lexer.startOf text) := by
    have hzero := FixedStream.some_ahead (ofText text).tokens 0
    simp only [ofText, ofItems, ofStream, FixedStream.ofItems, Lexer.items_ofText_eq] at hzero ⊢
    simpa [nthOrLast] using hzero
  have hprogram : program (ofText text).limit (ofText text) =
      some ((ofText text).parse.1, (ofText text).parse.2) := (parse_ends _).1 _ (Nat.le_refl _)
  obtain ⟨ts, -, htokens, -⟩ := program_stops_of_sof hprogram hstart rfl
  refine ⟨1 + ts.length, by omega, ?_⟩
  have hshows := hbehind.tokens
  rwa [htokens, behind_tokens, FixedStream.behind_behind] at hshows

/-- Behind the start of a text there is no program: the next token is blamed and read, and a failure is
shown and not passed. -/
theorem parse_of_shows {text : List Char} {p : Parser Lookahead} {m : Nat} (hm : 1 ≤ m)
    (h : p.tokens.Shows ((ofText text).tokens.behind m)) :
    match (ofText text).tokens.ahead m with
    | .ok t => p.parse.1 = .error (.misplaced (.atToken t .notSof)) ∧
        p.parse.2.tokens.Shows ((ofText text).tokens.behind (m + 1))
    | .error u => p.parse = (.error (.unknownToken u), p) := by
  obtain ⟨hanswer, hshows⟩ := h.next
  have hahead : ((ofText text).tokens.behind m).ahead 0 = (ofText text).tokens.ahead m := by
    rw [FixedStream.ahead_behind, Nat.add_zero]
  cases hitem : (ofText text).tokens.ahead m with
  | ok t =>
    rw [FixedStream.next_of_ok (hahead.trans hitem)] at hanswer hshows
    rw [parse_of_next_ok (Prod.ext hanswer rfl) (Lexer.kind_ne_sof_of_ahead hm hitem)]
    exact ⟨rfl, by rwa [FixedStream.behind_behind] at hshows⟩
  | error u =>
    rw [FixedStream.next_of_error (hahead.trans hitem)] at hanswer
    have hnext : TokenStream.next p.tokens = (.error u, p.tokens) :=
      Prod.ext hanswer (Lookahead.eq_of_next_error (Prod.ext hanswer rfl))
    exact parse_of_next_error hnext

/-- Every further program reads one item.

**Proof sketch.** Induction on the number of further programs. The start of the text has been read before
the first one of them. -/
theorem shows_after {text : List Char} {k : Nat} (hk : 1 ≤ k)
    (h : (onText text).parse.2.tokens.Shows ((ofText text).tokens.behind k)) (n : Nat) :
    ((onText text).after (n + 1)).tokens.Shows
      ((ofText text).tokens.behind ((ofText text).tokens.readFrom k n)) := by
  induction n with
  | zero => exact h
  | succ n ih =>
    have hparse := parse_of_shows (Nat.le_trans hk ((ofText text).tokens.le_readFrom k n)) ih
    rw [FixedStream.readFrom, after]
    cases hitem : (ofText text).tokens.ahead ((ofText text).tokens.readFrom k n) with
    | ok t =>
      simp only [hitem] at hparse ⊢
      exact hparse.2
    | error u =>
      simp only [hitem] at hparse ⊢
      rwa [hparse]

/-- What further programs come to, one after the other, is an error if each of them comes to one. -/
theorem exists_error_of_mem_tail {p : Parser Lookahead}
    (h : ∀ n, ∃ e, (p.after (n + 1)).parse.1 = .error e) {n : Nat} {r : Except ParseError Program}
    (hr : r ∈ (p.parseRepeatedly n).tail) : ∃ e, r = .error e := by
  rw [parseRepeatedly_eq] at hr
  cases n with
  | zero => simp at hr
  | succ n =>
    rw [List.range_succ_eq_map, List.map_cons, List.tail_cons, List.map_map] at hr
    obtain ⟨i, -, rfl⟩ := List.mem_map.1 hr
    exact h i

/-- **A parser of a text is used once.** However often it is used, every program but the first one is an
error. If the next item that has not been read is a token, then this token is blamed for not being a start,
at its first character, and it is all that is read; the end of the text is such a token again and again. If
it is a character that begins no token, then this character is shown, and the parser stays as it is. Here
the items that have been read are counted: behind so many items, the stream of the items of the text answers
as the tokens of the parser do.

**Proof sketch.** The first program has read the start of the text, whatever came of it. No other token of
the text is a start, so every further program ends with its first token. -/
theorem parse_again (text : String) :
    (∀ n, ∀ r ∈ ((onText text.toList).parseRepeatedly n).tail, ∃ e, r = .error e) ∧
    ∃ read : Nat → Nat, read 0 = 0 ∧ 1 ≤ read 1 ∧
      (∀ n qs, TokenStream.answers ((onText text.toList).after n).tokens qs =
        TokenStream.answers ((ofText text.toList).tokens.behind (read n)) qs) ∧
      ∀ n, match (ofText text.toList).tokens.ahead (read (n + 1)) with
        | .ok t =>
          (∃ e, ((onText text.toList).after (n + 1)).parse.1 = .error (.misplaced e) ∧
              e.token = t ∧ e.position = t.startPos ∧
              e.reason = "expected to find the SOF, but found " ++ t.kind.text) ∧
            read (n + 2) = read (n + 1) + 1
        | .error u =>
          ((onText text.toList).after (n + 1)).parse.1 = .error (.unknownToken u) ∧
            (onText text.toList).after (n + 2) = (onText text.toList).after (n + 1) ∧
            read (n + 2) = read (n + 1) := by
  obtain ⟨k, hk, hfirst⟩ := exists_shows_parse text.toList
  have hparse (n : Nat) := parse_of_shows
    (Nat.le_trans hk ((ofText text.toList).tokens.le_readFrom k n)) (shows_after hk hfirst n)
  refine ⟨fun n r hr => exists_error_of_mem_tail (fun i => ?_) hr,
    fun | 0 => 0 | n + 1 => (ofText text.toList).tokens.readFrom k n, rfl, hk, fun n qs => ?_,
    fun n => ?_⟩
  · have hi := hparse i
    split at hi
    · exact ⟨_, hi.1⟩
    · exact ⟨_, congrArg Prod.fst hi⟩
  · cases n with
    | zero => exact Lookahead.simulation.answers_eq (Lookahead.shows_items _) qs
    | succ n => exact Lookahead.simulation.answers_eq (shows_after hk hfirst n) qs
  · have hn := hparse n
    simp only [FixedStream.readFrom]
    cases hitem : (ofText text.toList).tokens.ahead ((ofText text.toList).tokens.readFrom k n) with
    | ok t =>
      simp only [hitem] at hn ⊢
      exact ⟨⟨_, hn.1, rfl, rfl, rfl⟩, trivial⟩
    | error u =>
      simp only [hitem] at hn ⊢
      refine ⟨congrArg Prod.fst hn, ?_, trivial⟩
      rw [after, hn]

/-- The first program of `7 ?` shows the second character and has read the start only. So the number is blamed
next, and then this character is shown again and again. -/
theorem parse_again_sample :
    ((onText "7 ?".toList).parseRepeatedly 4).tail =
      [.error (.misplaced (.atToken ⟨.number, "7 ", 0, 1⟩ .notSof)), .error (.unknownToken ⟨'?', 2⟩),
        .error (.unknownToken ⟨'?', 2⟩)] ∧
      ∃ r ∈ ((onText "7 ?".toList).parseRepeatedly 4).tail, ∃ e, r = .error e := by
  have htail : ((onText "7 ?".toList).parseRepeatedly 4).tail =
      [.error (.misplaced (.atToken ⟨.number, "7 ", 0, 1⟩ .notSof)), .error (.unknownToken ⟨'?', 2⟩),
        .error (.unknownToken ⟨'?', 2⟩)] := by decide +kernel
  have hmem : .error (.unknownToken ⟨'?', 2⟩) ∈ ((onText "7 ?".toList).parseRepeatedly 4).tail := by
    rw [htail]
    simp
  exact ⟨htail, _, hmem, (parse_again "7 ?").1 4 _ hmem⟩

end Parser

end DiceNotation
