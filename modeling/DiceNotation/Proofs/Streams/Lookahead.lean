import DiceNotation.Lookahead
import DiceNotation.Proofs.Lexing.Items
import DiceNotation.Proofs.Streams.Simulation

set_option autoImplicit false

/-!
# Looking ahead keeps nothing back

A text that is looked into through a buffer is the stream of its items. Between the reader and the
lexer stand the buffered tokens; together with the items that the lexer would still read they make
up what is pending, and no operation changes what is pending except by reading its first token.

## Main definitions

* `Lexer.NextMany` — the ways in which reading several tokens can end.
* `Lookahead.pending` — the buffered tokens, and the items behind them.
* `Lookahead.Shows` — a buffered text shows the rest of a fixed stream.

## Main results

* `Lookahead.fill_pending` — looking ahead does not change what is pending.
* `Lookahead.simulation` — a buffered text keeps showing the stream that it shows.
* `Lookahead.answers_eq_answers_items` — a fresh buffered text answers to every sequence of
  operations as the stream of its items does.

## Implementation notes

A buffer that ends with the end of the text is not filled any further, and the lexer behind it
stands at that end. So the end then is pending twice, which makes no difference because the last
item is repeated anyway.
-/

namespace DiceNotation

namespace Lexer

/-- What reading up to `n` tokens from `l` yields: the tokens, the failure if there is one, and the
lexer behind them. -/
inductive NextMany (l : Lexer) (n : Nat) : List Token × Option UnknownToken × Lexer → Prop
  /-- All `n` tokens, none of them an end. -/
  | full {ts : List Token} {l' : Lexer} (hlen : ts.length = n) (hne : ∀ t ∈ ts, t.kind ≠ .eof)
    (hitems : l.items = ts.map .ok ++ l'.items) : NextMany l n (ts, none, l')
  /-- The tokens in front of a failure. -/
  | failed {ts : List Token} {e : UnknownToken} {l' : Lexer} (hlen : ts.length < n)
    (hne : ∀ t ∈ ts, t.kind ≠ .eof) (hnext : l'.next = .error e)
    (hitems : l.items = ts.map .ok ++ [.error e]) : NextMany l n (ts, some e, l')
  /-- The tokens up to the end of the text. -/
  | ended {ts : List Token} {t : Token} {l' : Lexer} (ht : t.kind = .eof)
    (hnext : l'.next = .ok (t, l')) (hitems : l.items = ts.map .ok ++ [.ok t]) :
    NextMany l n (ts ++ [t], none, l')

/-- Reading several tokens yields one of these outcomes.

**Proof sketch.** Induction on the number of tokens. A failure or an end stops the reading; any
other token comes in front of what the lexer behind it yields. -/
theorem nextMany_cases (l : Lexer) (n : Nat) : NextMany l n (l.nextMany n) := by
  induction n generalizing l with
  | zero => exact .full rfl (by simp) rfl
  | succ n ih =>
    unfold nextMany
    cases h : l.next with
    | error e => exact .failed (Nat.succ_pos n) (by simp) h (items_of_error h)
    | ok r =>
      obtain ⟨t, l'⟩ := r
      by_cases ht : t.kind = .eof
      · obtain rfl := eq_of_next_eof h ht
        simp only [ht, ↓reduceIte]
        exact @NextMany.ended _ _ [] t _ ht h (items_of_eof h ht)
      · have hcons {ts : List Token} (hne : ∀ u ∈ ts, u.kind ≠ .eof) :
            ∀ u ∈ t :: ts, u.kind ≠ .eof := by
          simpa [ht] using hne
        have hrest := ih l'
        simp only [ht, ↓reduceIte]
        generalize l'.nextMany n = r at hrest
        cases hrest with
        | full hlen hne hitems =>
          exact .full (by simpa using hlen) (hcons hne) (by rw [items_of_token h ht, hitems]; rfl)
        | failed hlen hne hnext hitems =>
          exact .failed (by simpa using hlen) (hcons hne) hnext
            (by rw [items_of_token h ht, hitems]; rfl)
        | @ended ts u _ hu hnext hitems =>
          exact @NextMany.ended _ _ (t :: ts) u _ hu hnext (by rw [items_of_token h ht, hitems]; rfl)

end Lexer

namespace Lookahead

/-- The buffered tokens, and the items behind them. -/
def pending (s : Lookahead) : List Item :=
  s.buffer.map .ok ++ s.lexer.items

/-- Behind a buffer that ends with the end of the text, the lexer stands at that end. -/
def Settled (s : Lookahead) : Prop :=
  ∀ t, s.buffer.getLast? = some t → t.kind = .eof → s.lexer.next = .ok (t, s.lexer)

/-- What looking ahead for `n` tokens does: what is pending stays the same; if a failure is reported,
it is the item behind the buffer, which holds fewer than `n` tokens; and if none is reported, the
buffer holds `n` tokens or ends with the end of the text. -/
theorem fill_pending {s : Lookahead} (hs : s.Settled) (n : Nat) :
    (s.fill n).2.Settled ∧ (∀ k, nthOrLast (s.fill n).2.pending k = nthOrLast s.pending k) ∧
      match (s.fill n).1 with
      | some e => (s.fill n).2.lexer.next = .error e ∧ (s.fill n).2.buffer.length < n
      | none => n ≤ (s.fill n).2.buffer.length ∨
          ∃ t, (s.fill n).2.buffer.getLast? = some t ∧ t.kind = .eof := by
  by_cases hend : s.buffer.getLast?.any (·.kind = .eof)
  · have hfill : s.fill n = (none, s) := if_pos hend
    rw [hfill]
    refine ⟨hs, fun _ => rfl, Or.inr ?_⟩
    simpa [Option.any_eq_true] using hend
  · have hfill : s.fill n = ((s.lexer.nextMany (n - s.buffer.length)).2.1,
        ⟨(s.lexer.nextMany (n - s.buffer.length)).2.2,
          s.buffer ++ (s.lexer.nextMany (n - s.buffer.length)).1,
          s.buffered ++ (s.lexer.nextMany (n - s.buffer.length)).1⟩) := if_neg hend
    have hcases := s.lexer.nextMany_cases (n - s.buffer.length)
    rw [hfill]
    generalize s.lexer.nextMany (n - s.buffer.length) = r at hcases
    -- the end of the text is read by the last outcome only, so up to there the buffer is open
    have hopen {ts : List Token} (hne : ∀ t ∈ ts, t.kind ≠ .eof) {t : Token}
        (hlast : (s.buffer ++ ts).getLast? = some t) : t.kind ≠ .eof := by
      rw [List.getLast?_append, Option.or_eq_some_iff] at hlast
      rcases hlast with hlast | ⟨-, hlast⟩
      · exact hne t (List.mem_of_getLast? hlast)
      · intro ht
        exact hend (by simp [hlast, ht])
    cases hcases with
    | @full ts l' hlen hne hitems =>
      refine ⟨fun t hlast ht => absurd ht (hopen hne hlast), fun k => ?_, Or.inl ?_⟩
      · simp only [pending, hitems, List.map_append, List.append_assoc]
      · simp only [List.length_append]
        omega
    | @failed ts e l' hlen hne hnext hitems =>
      refine ⟨fun t hlast ht => absurd ht (hopen hne hlast), fun k => ?_, hnext, ?_⟩
      · simp only [pending, hitems, Lexer.items_of_error hnext, List.map_append, List.append_assoc]
      · simp only [List.length_append]
        omega
    | @ended ts t l' ht hnext hitems =>
      refine ⟨fun u hlast _ => ?_, fun k => ?_, Or.inr ⟨t, by simp, ht⟩⟩
      · obtain rfl : t = u := by simpa using hlast
        exact hnext
      · have hpending : pending s = (s.buffer ++ ts).map .ok ++ [.ok t] := by
          simp only [pending, hitems, List.map_append, List.append_assoc]
        rw [hpending, ← nthOrLast_append_last]
        simp only [pending, Lexer.items_of_eof hnext ht, List.map_append, List.append_assoc,
          List.map_cons, List.map_nil]

/-! ## What a buffered text shows -/

/-- The buffered text `s` shows what lies ahead in the fixed stream `f`. -/
structure Shows (s : Lookahead) (f : FixedStream) : Prop where
  /-- The buffer ends with the end of the text only when the lexer stands there. -/
  settled : s.Settled
  /-- What is pending is what lies ahead. -/
  ahead (n : Nat) : some (f.ahead n) = nthOrLast s.pending n

/-- Looking ahead shows the item there, and afterwards the same stream. -/
theorem Shows.peekNth {s : Lookahead} {f : FixedStream} (h : s.Shows f) (n : Nat) :
    (TokenStream.peekNth s n).1 = f.ahead n ∧ (TokenStream.peekNth s n).2.Shows f := by
  obtain ⟨hsettled, hpending, hfilled⟩ := fill_pending h.settled (n + 1)
  have hahead := h.ahead n
  rw [← hpending] at hahead
  have hshows : (s.fill (n + 1)).2.Shows f :=
    ⟨hsettled, fun k => (h.ahead k).trans (hpending k).symm⟩
  cases hfill : s.fill (n + 1) with
  | mk failure s' =>
    rw [hfill] at hfilled hahead hshows hsettled
    cases failure with
    | none =>
      have hbuffer : nthOrLast s'.pending n = (nthOrLast s'.buffer n).map .ok := by
        rw [← nthOrLast_map]
        rcases hfilled with hlen | ⟨t, hlast, ht⟩
        · exact nthOrLast_append_of_lt _ (by simpa [Nat.succ_le_iff] using hlen)
        · obtain ⟨ts, hts⟩ := List.getLast?_eq_some_iff.1 hlast
          rw [pending, Lexer.items_of_eof (hsettled t hlast ht) ht, hts, List.map_append]
          exact nthOrLast_append_last _ _ n
      obtain ⟨t, ht, hanswer⟩ := Option.map_eq_some_iff.1 (hahead.trans hbuffer).symm
      have hpeek : TokenStream.peekNth s n = (.ok t, s') := by
        unfold nthOrLast at ht
        simp only [TokenStream.peekNth, hfill, ht]
      rw [hpeek]
      exact ⟨hanswer, hshows⟩
    | some e =>
      obtain ⟨hnext, hlen⟩ := hfilled
      rw [pending, Lexer.items_of_error hnext,
        nthOrLast_append_singleton (by simpa using Nat.le_of_lt_succ hlen),
        Option.some.injEq] at hahead
      have hpeek : TokenStream.peekNth s n = (.error e, s') := by
        simp only [TokenStream.peekNth, hfill]
      rw [hpeek]
      exact ⟨hahead.symm, hshows⟩

/-- Reading a token off what is pending shows the stream behind that token. -/
theorem Shows.of_pending_eq_cons {s s' : Lookahead} {f : FixedStream} {t : Token} (h : s.Shows f)
    (hsettled : s'.Settled) (hpending : s.pending = .ok t :: s'.pending) :
    f.ahead 0 = .ok t ∧ s'.Shows (f.behind 1) := by
  obtain ⟨x, xs, hxs⟩ : ∃ x xs, s'.pending = x :: xs :=
    List.exists_cons_of_ne_nil (by simp [pending, Lexer.items_ne_nil])
  have hzero := h.ahead 0
  rw [hpending, nthOrLast_of_lt (Nat.succ_pos _), List.getElem_cons_zero, Option.some.injEq] at hzero
  refine ⟨hzero, hsettled, fun n => ?_⟩
  rw [FixedStream.ahead_behind, Nat.add_comm, h.ahead, hpending, hxs, nthOrLast_cons_succ]

/-- Reading yields the item ahead and, unless that is a failure, goes on to what lies behind it.

**Proof sketch.** A buffered token is the first one pending. If the buffer is empty, the lexer reads
the first item pending: a token in front of the end leaves the items behind it, while at the end
and at a failure the one item pending stays. -/
theorem Shows.next {s : Lookahead} {f : FixedStream} (h : s.Shows f) :
    (TokenStream.next s).1 = (TokenStream.next f).1 ∧
      (TokenStream.next s).2.Shows (TokenStream.next f).2 := by
  obtain ⟨lexer, buffer, buffered⟩ := s
  cases buffer with
  | cons t ts =>
    have hsettled : Settled ⟨lexer, ts, buffered⟩ := by
      intro u hu
      refine h.settled u ?_
      simp only at hu
      simp [List.getLast?_cons, hu]
    obtain ⟨hzero, hshows⟩ := h.of_pending_eq_cons hsettled rfl
    rw [FixedStream.next_of_ok hzero]
    exact ⟨rfl, hshows⟩
  | nil =>
    have hempty (l : Lexer) : Settled ⟨l, [], buffered⟩ := by simp [Settled]
    cases hnext : lexer.next with
    | error e =>
      have hzero := h.ahead 0
      simp only [pending, Lexer.items_of_error hnext, List.map_nil] at hzero
      have hread : TokenStream.next (⟨lexer, [], buffered⟩ : Lookahead) =
          (.error e, ⟨lexer, [], buffered⟩) := by simp only [TokenStream.next, hnext]
      rw [FixedStream.next_of_error (Option.some.inj hzero), hread]
      exact ⟨rfl, h⟩
    | ok r =>
      obtain ⟨t, l'⟩ := r
      have hread : TokenStream.next (⟨lexer, [], buffered⟩ : Lookahead) =
          (.ok t, ⟨l', [], buffered⟩) := by simp only [TokenStream.next, hnext]
      rw [hread]
      by_cases ht : t.kind = .eof
      · obtain rfl := Lexer.eq_of_next_eof hnext ht
        have hlast (n : Nat) : f.ahead n = .ok t := by
          have hn := h.ahead n
          simp only [pending, Lexer.items_of_eof hnext ht, List.map_nil] at hn
          rw [nthOrLast_append_singleton (l := []) (Nat.zero_le n), Option.some.injEq] at hn
          exact hn
        rw [FixedStream.next_of_ok (hlast 0)]
        refine ⟨rfl, h.settled, fun n => ?_⟩
        rw [FixedStream.ahead_behind, hlast, ← hlast n, h.ahead]
      · obtain ⟨hzero, hshows⟩ := h.of_pending_eq_cons (t := t) (hempty l')
          (by simp only [pending, Lexer.items_of_token hnext ht, List.map_nil, List.nil_append])
        rw [FixedStream.next_of_ok hzero]
        exact ⟨rfl, hshows⟩

/-- A buffered text keeps showing the stream that it shows, with the same answers. -/
theorem simulation : TokenStream.Simulation Shows where
  peekNth h n := h.peekNth n
  next h := h.next

/-- A fresh buffered text shows the stream of its items. -/
theorem shows_items (l : Lexer) :
    (ofLexer l).Shows (FixedStream.ofItems l.items l.items_ne_nil) where
  settled := by simp [Settled, ofLexer]
  ahead n := by simp [FixedStream.some_ahead, FixedStream.ofItems, pending, ofLexer]

/-- **Looking ahead in a text keeps nothing back.** From any place of any text, the buffered reader
answers to every sequence of operations as the stream of the items from there on does, whose last
item is repeated for ever. Whatever has been asked before, looking ahead changes no later answer,
and reading either yields a token or changes no later answer.

**Proof sketch.** The fresh reader shows the stream of the items, and a reader that shows a stream
answers as the stream does and goes on showing it. A fixed stream stays the same when it is looked
into and when reading fails. -/
theorem answers_eq_answers_items (text : List Char) (pos : Int) (qs : List TokenStream.Query) :
    TokenStream.answers (ofPlace text pos) qs =
        TokenStream.answers (FixedStream.ofItems (Lexer.items ⟨Cursor.place text pos, none⟩)
          (Lexer.items_ne_nil _)) qs ∧
      ∀ qs',
        (∀ n, TokenStream.answers
            (TokenStream.peekNth (TokenStream.after (ofPlace text pos) qs) n).2 qs' =
          TokenStream.answers (TokenStream.after (ofPlace text pos) qs) qs') ∧
        ((∃ t, (TokenStream.next (TokenStream.after (ofPlace text pos) qs)).1 = .ok t) ∨
          TokenStream.answers (TokenStream.next (TokenStream.after (ofPlace text pos) qs)).2 qs' =
            TokenStream.answers (TokenStream.after (ofPlace text pos) qs) qs') := by
  have hfresh := shows_items ⟨Cursor.place text pos, none⟩
  refine ⟨simulation.answers_eq hfresh qs, fun qs' => ?_⟩
  have hshows := simulation.after hfresh qs
  set f := TokenStream.after (FixedStream.ofItems (Lexer.items ⟨Cursor.place text pos, none⟩)
    (Lexer.items_ne_nil _)) qs
  have hsame {s' : Lookahead} (h : s'.Shows f) : TokenStream.answers s' qs' =
      TokenStream.answers (TokenStream.after (ofPlace text pos) qs) qs' :=
    (simulation.answers_eq h qs').trans (simulation.answers_eq hshows qs').symm
  refine ⟨fun n => hsame (hshows.peekNth n).2, ?_⟩
  obtain ⟨hanswer, hnext⟩ := hshows.next
  cases hzero : f.ahead 0 with
  | ok t =>
    rw [FixedStream.next_of_ok hzero] at hanswer
    exact Or.inl ⟨t, hanswer⟩
  | error e =>
    rw [FixedStream.next_of_error hzero] at hnext
    exact Or.inr (hsame hnext)

end Lookahead

end DiceNotation
