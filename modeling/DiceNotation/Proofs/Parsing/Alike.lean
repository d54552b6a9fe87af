import DiceNotation.Proofs.Parsing.Limits
import DiceNotation.Proofs.Streams.Lookahead

set_option autoImplicit false

/-!
# Parsing streams that cannot be told apart

The parser knows a stream by its answers only. Over two streams that answer alike it takes the same
steps, with the same outcomes, so parsing a buffered text is parsing the fixed stream of its items.

## Main definitions

* `Parser.Alike` — two parsers with streams that are related and with the same last token.
* `Parse.Alike` — two steps that have the same outcomes and leave parsers alike.

## Main results

* `Parser.program_alike` — reading a program has the same outcome over streams that answer alike.
* `parse_eq_parse_items` — the program of a text is the program of the stream of its items.
* `parse_eq_ok_iff_spelling` — a text is parsed exactly if its items spell a program.
-/

namespace DiceNotation

/-! ## Steps with the same outcomes -/

/-- Parsers over related streams that have read the same token last. -/
structure Parser.Alike {σ τ : Type} (R : σ → τ → Prop) (p : Parser σ) (q : Parser τ) : Prop where
  /-- The tokens ahead are related. -/
  tokens : R p.tokens q.tokens
  /-- The token read last is the same. -/
  last : p.last = q.last

namespace Parse

variable {σ τ α β : Type} {R : σ → τ → Prop}

/-- From parsers alike, both steps give up, or they have the same outcome and leave parsers alike. -/
def Alike (R : σ → τ → Prop) (x : Parse σ α) (y : Parse τ α) : Prop :=
  ∀ p q, Parser.Alike R p q →
    Option.Rel (fun r s => r.1 = s.1 ∧ Parser.Alike R r.2 s.2) (x p) (y q)

/-- Steps alike are alike one after the other. -/
theorem Alike.bind {x : Parse σ α} {y : Parse τ α} {f : α → Parse σ β} {g : α → Parse τ β}
    (hxy : Alike R x y) (hfg : ∀ a, Alike R (f a) (g a)) : Alike R (x >>= f) (y >>= g) := by
  intro p q h
  have hpq := hxy p q h
  rw [bind_apply, bind_apply]
  generalize x p = r at hpq
  generalize y q = s at hpq
  cases hpq with
  | none => exact .none
  | @some r s hrs =>
    obtain ⟨a, p'⟩ := r
    obtain ⟨b, q'⟩ := s
    obtain ⟨hab, halike⟩ := hrs
    cases (hab : a = b)
    cases a with
    | ok a => exact hfg a p' q' halike
    | error e => exact .some ⟨rfl, halike⟩

/-- Yielding the same value is alike. -/
theorem Alike.pure (a : α) : Alike R (pure a : Parse σ α) (pure a : Parse τ α) :=
  fun _ _ h => .some ⟨rfl, h⟩

/-- Steps alike stay alike when their values are changed. -/
theorem Alike.map {x : Parse σ α} {y : Parse τ α} (f : α → β) (hxy : Alike R x y) :
    Alike R (f <$> x) (f <$> y) := by
  rw [← bind_pure_comp, ← bind_pure_comp]
  exact hxy.bind fun a => .pure (f a)

end Parse

namespace Parser

section Steps

variable {σ τ α : Type} {R : σ → τ → Prop}

/-- Failing with the same error is alike. -/
theorem fail_alike (e : ParseError) : Parse.Alike R (fail e : Parse σ α) (fail e : Parse τ α) :=
  fun _ _ h => .some ⟨rfl, h⟩

/-- Giving up is alike. -/
theorem giveUp_alike : Parse.Alike R (giveUp : Parse σ α) (giveUp : Parse τ α) :=
  fun _ _ _ => .none

/-- The place of the last character read is the same. -/
theorem lastPos_alike : Parse.Alike R (lastPos : Parse σ Int) (lastPos : Parse τ Int) := by
  intro p q h
  refine .some ⟨?_, h⟩
  simp only [h.last]

variable [TokenStream σ] [TokenStream τ] (hR : TokenStream.Simulation R)

include hR

/-- Looking ahead is alike. -/
theorem peekNth_alike (n : Nat) :
    Parse.Alike R (peekNth n : Parse σ Token) (peekNth n : Parse τ Token) := by
  intro p q h
  obtain ⟨hanswer, hrel⟩ := hR.peekNth h.tokens n
  exact .some ⟨congrArg (Except.mapError ParseError.unknownToken) hanswer, hrel, h.last⟩

/-- Reading a token is alike. -/
theorem advance_alike : Parse.Alike R (advance : Parse σ Token) (advance : Parse τ Token) := by
  intro p q h
  obtain ⟨hanswer, hrel⟩ := hR.next h.tokens
  unfold advance
  generalize TokenStream.next p.tokens = a at hanswer hrel
  generalize TokenStream.next q.tokens = b at hanswer hrel
  obtain ⟨x, s⟩ := a
  obtain ⟨y, t⟩ := b
  cases (hanswer : x = y)
  cases x with
  | ok t => exact .some ⟨rfl, hrel, rfl⟩
  | error e => exact .some ⟨rfl, hrel, h.last⟩

/-- Looking for a kind of token is alike. -/
theorem isAt_alike (n : Nat) (kind : TokenKind) :
    Parse.Alike R (isAt n kind : Parse σ Bool) (isAt n kind : Parse τ Bool) :=
  (peekNth_alike hR n).bind fun _ => .pure _

/-- Reading a token of a kind is alike. -/
theorem expect_alike (kind : TokenKind) (cause : Misfit) :
    Parse.Alike R (expect kind cause : Parse σ Token) (expect kind cause : Parse τ Token) := by
  apply (advance_alike hR).bind
  intro token
  split
  · exact .pure _
  · exact fail_alike _

/-! ## Terminals -/

/-- Reading a number is alike. -/
theorem number_alike :
    Parse.Alike R (number : Parse σ (Token × Int32)) (number : Parse τ (Token × Int32)) := by
  refine lastPos_alike.bind fun position => (advance_alike hR).bind fun token => ?_
  cases if token.kind = .number then Numeral.int32? token.lexeme else none with
  | some value => exact .pure _
  | none => exact fail_alike _

/-- Reading a number of dice is alike. -/
theorem times_alike : Parse.Alike R (times : Parse σ Token) (times : Parse τ Token) := by
  apply (number_alike hR).bind
  intro r
  obtain ⟨token, value⟩ := r
  simp only
  split
  · exact .pure _
  · exact fail_alike _

/-- Reading a modifier is alike. -/
theorem modifier_alike (faces : Int32) :
    Parse.Alike R (modifier faces : Parse σ Token) (modifier faces : Parse τ Token) := by
  apply (advance_alike hR).bind
  intro token
  cases token.lexeme.toList.head?.bind Modifier.ofChar? with
  | none => exact fail_alike _
  | some m =>
    cases m with
    | explode =>
      simp only
      split
      · exact fail_alike _
      · exact .pure _
    | _ => exact .pure _

/-- A token that may be missing is read alike. -/
theorem optional_alike {β : Type} (kind : TokenKind) {x : Parse σ Token} {y : Parse τ Token}
    {k : Option Token → Parse σ β} {m : Option Token → Parse τ β} (hxy : Parse.Alike R x y)
    (hkm : ∀ o, Parse.Alike R (k o) (m o)) :
    Parse.Alike R
      (nextIs kind >>= fun is => if is = true then some <$> x >>= k else pure none >>= k)
      (nextIs kind >>= fun is => if is = true then some <$> y >>= m else pure none >>= m) := by
  apply (isAt_alike hR 0 kind).bind
  intro is
  split
  · exact (hxy.map some).bind hkm
  · exact (Parse.Alike.pure none).bind hkm

/-- Reading dice is alike. -/
theorem dice_alike : Parse.Alike R (dice : Parse σ Node) (dice : Parse τ Node) := by
  apply optional_alike hR .number (times_alike hR)
  intro times
  refine (expect_alike hR _ _).bind fun dSymbol => (number_alike hR).bind fun r => ?_
  exact optional_alike hR .modifier (modifier_alike hR r.2) fun mode => .pure _

/-- Reading a terminal is alike. -/
theorem terminal_alike : Parse.Alike R (terminal : Parse σ Node) (terminal : Parse τ Node) := by
  have hread (diceAhead : Bool) : Parse.Alike R
      (if diceAhead = true then dice
        else number >>= fun r => pure (Node.number r.1 r.2) : Parse σ Node)
      (if diceAhead = true then dice
        else number >>= fun r => pure (Node.number r.1 r.2) : Parse τ Node) := by
    split
    · exact dice_alike hR
    · exact (number_alike hR).bind fun r => .pure _
  apply (isAt_alike hR 0 .dSymbol).bind
  intro is
  split
  · exact (Parse.Alike.pure true).bind hread
  · exact (isAt_alike hR 1 .dSymbol).bind hread

/-! ## Expressions and programs -/

/-- Looking for an operator is alike. -/
theorem operatorWithin_alike (n count : Nat) :
    Parse.Alike R (operatorWithin n count : Parse σ Bool)
      (operatorWithin n count : Parse τ Bool) := by
  induction count generalizing n with
  | zero => exact .pure false
  | succ count ih =>
    apply (peekNth_alike hR n).bind
    intro token
    cases token.kind
    case operator => exact .pure true
    case separator | eof => exact .pure false
    all_goals exact ih (n + 1)

/-- Reading an expression is alike. -/
theorem expression_alike (limit : Nat) :
    Parse.Alike R (expression limit : Parse σ Node) (expression limit : Parse τ Node) := by
  induction limit with
  | zero => exact giveUp_alike
  | succ limit ih =>
    apply (operatorWithin_alike hR 1 4).bind
    intro b
    split
    · refine (terminal_alike hR).bind fun left => (expect_alike hR _ _).bind fun operator => ?_
      exact ih.bind fun right => .pure _
    · exact terminal_alike hR

/-- Reading further expressions is alike. -/
theorem furtherExpressions_alike (limit n : Nat) :
    Parse.Alike R (furtherExpressions limit n : Parse σ (List Node))
      (furtherExpressions limit n : Parse τ (List Node)) := by
  induction n with
  | zero => exact giveUp_alike
  | succ n ih =>
    apply (isAt_alike hR 0 .separator).bind
    intro b
    split
    · refine (advance_alike hR).bind fun _ => (expression_alike hR limit).bind fun item => ?_
      apply (peekNth_alike hR 0).bind
      intro token
      split
      · exact fail_alike _
      · exact ih.bind fun items => .pure _
    · exact .pure []

/-- Reading a program is alike. -/
theorem program_alike (limit : Nat) :
    Parse.Alike R (program limit : Parse σ Program) (program limit : Parse τ Program) := by
  have hexpressions : Parse.Alike R (expressions limit : Parse σ (List Node))
      (expressions limit : Parse τ (List Node)) := by
    apply (isAt_alike hR 0 .eof).bind
    intro b
    split
    · exact .pure []
    · apply (expression_alike hR limit).bind
      intro item
      exact (furtherExpressions_alike hR limit limit).bind fun items => .pure _
  refine (expect_alike hR _ _).bind fun _ => hexpressions.bind fun items => ?_
  exact (expect_alike hR _ _).bind fun _ => .pure _

end Steps

section Parsing

variable {σ : Type} [TokenStream σ] {R : σ → FixedStream → Prop} {p : Parser σ}
  {q : Parser FixedStream}

/-- Parsing a stream that answers as a fixed stream does never gives up, if it does not underestimate
its size. -/
theorem program_ne_none_of_alike (hR : TokenStream.Simulation R) (h : Alike R p q)
    (hsize : TokenStream.size q.tokens ≤ TokenStream.size p.tokens) :
    program p.limit p ≠ none := by
  have hfinishes : program p.limit q ≠ none :=
    program_ne_none (Nat.succ_pos _) (Nat.le_succ_of_le hsize)
  intro hnone
  have halike := program_alike hR p.limit p q h
  rw [hnone] at halike
  cases hs : program p.limit q with
  | none => exact hfinishes hs
  | some s => simp [hs] at halike

/-- Parsing is alike over a fixed stream and over a stream that answers alike, if that one does not
underestimate its size. -/
theorem parse_alike (hR : TokenStream.Simulation R) (h : Alike R p q)
    (hsize : TokenStream.size q.tokens ≤ TokenStream.size p.tokens) :
    p.parse.1 = q.parse.1 ∧ Alike R p.parse.2 q.parse.2 := by
  obtain ⟨r, hr⟩ := Option.ne_none_iff_exists'.1 (program_ne_none_of_alike hR h hsize)
  have halike := program_alike hR p.limit p q h
  rw [hr] at halike
  cases hs : program p.limit q with
  | none => simp [hs] at halike
  | some s =>
    rw [hs, Option.rel_some_some] at halike
    have hp : p.parse = r := by rw [parse, hr, Option.getD_some]
    have hq : q.parse = s := parse_eq_iff.2 ⟨p.limit, hs⟩
    rw [hp, hq]
    exact halike

end Parsing

end Parser

/-! ## Texts -/

/-- The program of a text is the program of the stream of its items. -/
theorem parse_eq_parse_items (text : String) :
    parse text = (Parser.ofStream (FixedStream.ofItems (Lexer.ofText text.toList).items
      (Lexer.items_ne_nil _))).parse.1 := by
  refine (Parser.parse_alike Lookahead.simulation ⟨Lookahead.shows_items _, rfl⟩ ?_).1
  exact Nat.le_trans (Lexer.ofText text.toList).items_length_le_size (Nat.le_add_left _ _)

/-- The first item ahead is what the lexer reads. -/
theorem Lexer.exists_next_of_first {l : Lexer} {t : Token} (h : nthOrLast l.items 0 = some (.ok t)) :
    ∃ l', l.next = .ok (t, l') := by
  cases hnext : l.next with
  | error e => simp [Lexer.items_of_error hnext, nthOrLast] at h
  | ok r =>
    obtain ⟨u, l'⟩ := r
    by_cases hu : u.kind = .eof
    · obtain rfl : u = t := by simpa [Lexer.items_of_eof hnext hu, nthOrLast] using h
      exact ⟨l', rfl⟩
    · obtain rfl : u = t := by simpa [Lexer.items_of_token hnext hu, nthOrLast] using h
      exact ⟨l', rfl⟩

/-- If the tokens in front of an end lie ahead, they and the end are all the items.

**Proof sketch.** Induction along the tokens. What is read behind a token that is no end are the
other items, and an end is the last item. -/
theorem Lexer.items_eq_of_ahead {l : Lexer} {ts : List Token} {stop : Token}
    (hne : ∀ t ∈ ts, t.kind ≠ .eof) (hstop : stop.kind = .eof)
    (h : ∀ i t, (ts ++ [stop])[i]? = some t → nthOrLast l.items i = some (.ok t)) :
    l.items = (ts ++ [stop]).map .ok := by
  induction ts generalizing l with
  | nil =>
    obtain ⟨l', hnext⟩ := Lexer.exists_next_of_first (h 0 stop rfl)
    exact Lexer.items_of_eof hnext hstop
  | cons t ts ih =>
    obtain ⟨l', hnext⟩ := Lexer.exists_next_of_first (h 0 t rfl)
    have hitems := Lexer.items_of_token hnext (hne t List.mem_cons_self)
    have hrest : l'.items = (ts ++ [stop]).map .ok := by
      apply ih (fun u hu => hne u (List.mem_cons_of_mem t hu))
      intro i u hu
      have hahead := h (i + 1) u hu
      obtain ⟨x, xs, hxs⟩ := List.exists_cons_of_ne_nil l'.items_ne_nil
      rwa [hitems, hxs, nthOrLast_cons_succ, ← hxs] at hahead
    rw [hitems, hrest]
    rfl

/-- A text is parsed exactly if its items are tokens that spell a program. -/
theorem parse_eq_ok_iff_spelling {text : String} {prog : Program} :
    parse text = .ok prog ↔
      ∃ ts, prog.Spelling ts ∧ (Lexer.ofText text.toList).items = ts.map .ok := by
  rw [parse_eq_parse_items, Parser.parse_eq_ok_iff]
  constructor
  · rintro ⟨ts, hspelling, hstarts⟩
    obtain ⟨us, stop, rfl, hne, hstop⟩ := hspelling.exists_append
    refine ⟨us ++ [stop], hspelling, Lexer.items_eq_of_ahead hne hstop ?_⟩
    intro i t ht
    have hahead := (FixedStream.some_ahead _ i).symm.trans (congrArg some (hstarts i t ht))
    simpa [Parser.ofStream, FixedStream.ofItems] using hahead
  · rintro ⟨ts, hspelling, hitems⟩
    exact ⟨ts, hspelling, FixedStream.starts_of_prefix rfl (hitems ▸ List.prefix_rfl)⟩

end DiceNotation
