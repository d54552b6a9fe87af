import DiceNotation.Proofs.Parsing.Spent

set_option autoImplicit false

/-!
# The parser looks before it reads

A token that is read while the buffer is empty never comes into the buffer, so what came into the buffer
tells what has been read only if the parser looks at every token first. Reading a text it does so, its start
apart. What carries this is how many tokens the buffer still holds: an expression begins with a look at five
of them or at one that ends a terminal, a terminal reads four at most, and no terminal reads a token that ends
it without failing.

## Main definitions

* `Lookahead.Notes` — the tokens that came into the buffer are the first ones of some items.
* `Lookahead.Traced` — no token of these items has been read past the buffer.
* `Lookahead.Ready` — moreover, a number of tokens can be read without looking again.
* `Parse.Leads` — what a step makes of a stream, where it succeeds and where it fails.

## Main results

* `Lookahead.Traced.fill` — what looking ahead adds to the buffer.
* `Parser.operatorWithin_leads`, `Parser.terminal_leads` — what an expression looks at, and what a
  terminal leaves of it.
* `Parser.looked_onText` — what has been looked at when a text has been parsed.
-/

namespace DiceNotation

/-- The tokens of a terminal end none. -/
theorem Token.not_endsTerminal {t : Token}
    (h : t.kind = .number ∨ t.kind = .dSymbol ∨ t.kind = .modifier) : ¬ t.EndsTerminal := by
  rcases h with h | h | h <;> simp [EndsTerminal, EndsExpression, h]

/-! ## What came into the buffer -/

namespace Lookahead

variable {items : List Item} {s : Lookahead} {j k : Nat}

/-- The tokens that came into the buffer are the first ones of `items`. -/
def Notes (items : List Item) (s : Lookahead) : Prop :=
  s.buffered.toList.map .ok <+: items

/-- No token of `items` has been read past the buffer, and the end of the text, once it has been met, has
not been read at all. -/
inductive Traced (items : List Item) (s : Lookahead) : Prop
  /-- The end of the text has not been met. -/
  | inside (hbuffer : s.buffer <:+ s.buffered.toList)
    (hitems : items = s.buffered.toList.map .ok ++ s.lexer.items)
    (hne : ∀ t ∈ s.buffered.toList, t.kind ≠ .eof)
  /-- The buffer ends with the end of the text. -/
  | ended {t : Token} (hbuffer : s.buffer <:+ s.buffered.toList)
    (hitems : items = s.buffered.toList.map .ok) (hlast : s.buffer.getLast? = some t)
    (ht : t.kind = .eof)

/-- What has been looked at are the first items. -/
theorem Traced.notes (h : s.Traced items) : s.Notes items := by
  cases h with
  | inside _ hitems => exact ⟨_, hitems.symm⟩
  | ended _ hitems => exact hitems ▸ List.prefix_rfl

/-- Where the end of the text is in the buffer, all items have been looked at. -/
theorem Traced.eq_of_eof {t : Token} (h : s.Traced items) (hmem : t ∈ s.buffer) (ht : t.kind = .eof) :
    s.buffered.toList.map .ok = items := by
  cases h with
  | inside hbuffer _ hne => exact absurd ht (hne t (hbuffer.subset hmem))
  | ended _ hitems => exact hitems.symm

/-- Looking ahead only adds tokens to the buffer. If it does not fail, the buffer then is long enough, or
the end of the text is in it. -/
theorem Traced.fill (h : s.Traced items) (n : Nat) :
    (s.fill n).2.Traced items ∧ s.buffer <+: (s.fill n).2.buffer ∧
      ((s.fill n).1 = none →
        n ≤ (s.fill n).2.buffer.length ∨ ∃ t ∈ (s.fill n).2.buffer, t.kind = .eof) := by
  by_cases hend : s.buffer.getLast?.any (·.kind = .eof)
  · have hfill : s.fill n = (none, s) := if_pos hend
    obtain ⟨t, hlast, ht⟩ : ∃ t, s.buffer.getLast? = some t ∧ t.kind = .eof := by
      simpa [Option.any_eq_true] using hend
    rw [hfill]
    exact ⟨h, List.prefix_rfl, fun _ => Or.inr ⟨t, List.mem_of_getLast? hlast, ht⟩⟩
  cases h with
  | ended _ _ hlast ht => exact absurd (by simp [hlast, ht]) hend
  | inside hbuffer hitems hne =>
    have hfill : s.fill n = ((s.lexer.nextMany (n - s.buffer.length)).2.1,
        ⟨(s.lexer.nextMany (n - s.buffer.length)).2.2,
          s.buffer ++ (s.lexer.nextMany (n - s.buffer.length)).1,
          s.buffered ++ (s.lexer.nextMany (n - s.buffer.length)).1⟩) := if_neg hend
    have hcases := s.lexer.nextMany_cases (n - s.buffer.length)
    rw [hfill]
    generalize s.lexer.nextMany (n - s.buffer.length) = r at hcases
    have hadd (ts : List Token) : s.buffer ++ ts <:+ (s.buffered ++ ts).toList := by
      obtain ⟨us, hus⟩ := hbuffer
      exact ⟨us, by rw [Array.toList_appendList, ← hus, List.append_assoc]⟩
    have hopen {ts : List Token} (hts : ∀ t ∈ ts, t.kind ≠ .eof) :
        ∀ t ∈ (s.buffered ++ ts).toList, t.kind ≠ .eof := by
      intro t ht
      rw [Array.toList_appendList] at ht
      exact (List.mem_append.1 ht).elim (hne t) (hts t)
    cases hcases with
    | @full ts l' hlen hts hlexer =>
      refine ⟨.inside (hadd ts) ?_ (hopen hts), List.prefix_append _ _, fun _ => Or.inl ?_⟩
      · rw [hitems, hlexer, Array.toList_appendList, List.map_append, List.append_assoc]
      · simp only [List.length_append]
        omega
    | @failed ts e l' hlen hts hnext hlexer =>
      refine ⟨.inside (hadd ts) ?_ (hopen hts), List.prefix_append _ _, fun h => by cases h⟩
      rw [hitems, hlexer, Lexer.items_of_error hnext, Array.toList_appendList, List.map_append,
        List.append_assoc]
    | @ended ts t l' ht hnext hlexer =>
      refine ⟨.ended (hadd (ts ++ [t])) ?_ (by simp) ht, List.prefix_append _ _,
        fun _ => Or.inr ⟨t, by simp, ht⟩⟩
      rw [hitems, hlexer, Array.toList_appendList, List.map_append, List.map_append]
      rfl

/-! ## How much can be read without looking again -/

/-- Nothing has been read past the buffer, and from it `k` tokens can be read, or all up to one that ends a
terminal. -/
structure Ready (items : List Item) (k : Nat) (s : Lookahead) : Prop where
  /-- Nothing has been read past the buffer. -/
  traced : s.Traced items
  /-- The buffer holds enough tokens. -/
  enough : k ≤ s.buffer.length ∨ ∃ t ∈ s.buffer, t.EndsTerminal

/-- Reading fewer tokens needs no more in the buffer. -/
theorem Ready.mono (h : s.Ready items k) (hj : j ≤ k) : s.Ready items j :=
  ⟨h.traced, h.enough.imp_left (Nat.le_trans hj)⟩

/-- Where one token can be read, there is one in the buffer. -/
theorem Ready.exists_cons (h : s.Ready items (k + 1)) : ∃ t ts, s.buffer = t :: ts := by
  refine List.exists_cons_of_ne_nil fun hnil => ?_
  rcases h.enough with hlen | ⟨t, ht, -⟩
  · simp [hnil] at hlen
  · simp [hnil] at ht

/-- Looking ahead shows a token of the buffer, which then holds that many tokens more. -/
theorem Ready.peekNth (h : s.Ready items k) (n : Nat) :
    match TokenStream.peekNth s n with
    | (.ok t, s') => s'.Ready items (max k (n + 1)) ∧ nthOrLast s'.buffer n = some t
    | (.error _, s') => s'.Notes items := by
  obtain ⟨htraced, hprefix, hfilled⟩ := h.traced.fill (n + 1)
  simp only [TokenStream.peekNth]
  generalize s.fill (n + 1) = r at htraced hprefix hfilled
  obtain ⟨_ | e, s'⟩ := r
  · have henough : s'.Ready items (n + 1) :=
      ⟨htraced, (hfilled rfl).imp_right fun ⟨t, hmem, ht⟩ => ⟨t, hmem, Or.inr (Or.inr ht)⟩⟩
    obtain ⟨t, ts, hts⟩ := henough.exists_cons
    obtain ⟨u, hu⟩ : ∃ u, nthOrLast s'.buffer n = some u := by
      refine Option.isSome_iff_exists.1 ?_
      simp [nthOrLast, hts]
    simp only [show s'.buffer[n]?.or s'.buffer.getLast? = some u from hu]
    refine ⟨⟨htraced, ?_⟩, hu⟩
    rcases henough.enough with hlen | hends
    · rcases h.enough with hlen' | ⟨v, hv, hends⟩
      · exact Or.inl (Nat.max_le.2 ⟨Nat.le_trans hlen' hprefix.length_le, hlen⟩)
      · exact Or.inr ⟨v, hprefix.subset hv, hends⟩
    · exact Or.inr hends
  · exact htraced.notes

/-- What holds behind a token `t` that was read from a buffer of at least `k + 1` tokens. -/
structure Behind (items : List Item) (k : Nat) (t : Token) (s : Lookahead) : Prop where
  /-- What has been looked at are the first items. -/
  notes : s.Notes items
  /-- Behind a token that ends no terminal, `k` tokens can be read. -/
  ready (h : ¬ t.EndsTerminal) : s.Ready items k
  /-- Behind a token in front of the end, nothing has been read past the buffer. -/
  traced (h : t.kind ≠ .eof) : s.Traced items
  /-- Behind the end of the text, all items have been looked at. -/
  all (h : t.kind = .eof) : s.buffered.toList.map .ok = items

/-- Behind a token in front of the end, no token has to be in the buffer. -/
theorem Behind.ready_zero {t : Token} (h : s.Behind items k t) (ht : t.kind ≠ .eof) :
    s.Ready items 0 :=
  ⟨h.traced ht, Or.inl (Nat.zero_le _)⟩

/-- A token is read from the front of the buffer. -/
theorem Ready.next (h : s.Ready items (k + 1)) :
    ∃ t s', TokenStream.next s = (.ok t, s') ∧ s.buffer.head? = some t ∧ s'.Behind items k t := by
  obtain ⟨t, ts, hts⟩ := h.exists_cons
  have hnext : TokenStream.next s = (.ok t, { s with buffer := ts }) := by
    simp only [TokenStream.next, hts]
  have htraced (ht : t.kind ≠ .eof) : Traced items { s with buffer := ts } := by
    have hsuffix : ts <:+ s.buffer := hts ▸ List.suffix_cons t ts
    cases h.traced with
    | inside hbuffer hitems hne => exact .inside (hsuffix.trans hbuffer) hitems hne
    | @ended u hbuffer hitems hlast hu =>
      refine .ended (hsuffix.trans hbuffer) hitems ?_ hu
      rw [hts, List.getLast?_cons] at hlast
      cases hend : ts.getLast? with
      | some v => rw [← hlast, hend]; rfl
      | none =>
        rw [hend] at hlast
        obtain rfl : t = u := Option.some.inj hlast
        exact absurd hu ht
  refine ⟨t, _, hnext, by rw [hts]; rfl, h.traced.notes, fun ht => ?_, htraced,
    h.traced.eq_of_eof (hts ▸ List.mem_cons_self)⟩
  refine ⟨htraced fun hk => ht (Or.inr (Or.inr hk)), ?_⟩
  rcases h.enough with hlen | ⟨u, hu, hends⟩
  · rw [hts, List.length_cons] at hlen
    exact Or.inl (Nat.le_of_succ_le_succ hlen)
  · rw [hts] at hu
    rcases List.mem_cons.1 hu with rfl | hu
    · exact absurd hends ht
    · exact Or.inr ⟨u, hu, hends⟩

end Lookahead

/-! ## What a step makes of a stream -/

namespace Parse

variable {σ α β : Type} {P P' : σ → Prop} {Q Q' : α → σ → Prop} {R : β → σ → Prop} {E : σ → Prop}

/-- From a stream with `P`, the step leaves one with `Q` if it succeeds and one with `E` if it fails. -/
def Leads (P : σ → Prop) (x : Parse σ α) (Q : α → σ → Prop) (E : σ → Prop) : Prop :=
  ∀ p, P p.tokens → match x p with
    | some (.ok a, q) => Q a q.tokens
    | some (.error _, q) => E q.tokens
    | none => True

/-- Two steps lead where the second one leads from what the first one leaves. -/
theorem Leads.bind {x : Parse σ α} {f : α → Parse σ β} (hx : Leads P x Q E)
    (hf : ∀ a, Leads (Q a) (f a) R E) : Leads P (x >>= f) R E := by
  intro p hp
  have hleft := hx p hp
  rw [bind_apply]
  cases hr : x p with
  | none => trivial
  | some r =>
    obtain ⟨_ | a, q⟩ := r
    · simpa only [hr] using hleft
    · simp only [hr] at hleft
      exact hf a q hleft

/-- A step leads from less to more. -/
theorem Leads.conseq {x : Parse σ α} (h : Leads P x Q E) (hP : ∀ s, P' s → P s)
    (hQ : ∀ a s, Q a s → Q' a s) : Leads P' x Q' E := by
  intro p hp
  have hx := h p (hP p.tokens hp)
  cases hr : x p with
  | none => trivial
  | some r =>
    obtain ⟨_ | a, q⟩ := r
    · simpa only [hr] using hx
    · simp only [hr] at hx
      exact hQ a q.tokens hx

/-- A step leads from a stream of which more is known. -/
theorem Leads.weaken {x : Parse σ α} (h : Leads P x Q E) (hP : ∀ s, P' s → P s) : Leads P' x Q E :=
  h.conseq hP fun _ _ hs => hs

/-- A step that only yields a value leaves the stream as it is. -/
theorem Leads.pure {a : α} (h : ∀ s, P s → Q a s) : Leads P (pure a) Q E :=
  fun p hp => h p.tokens hp

/-- A step whose value is changed leads where the step does. -/
theorem Leads.map {x : Parse σ α} {f : α → β} (h : Leads P x (fun a => R (f a)) E) :
    Leads P (f <$> x) R E := by
  rw [← bind_pure_comp]
  exact h.bind fun a => .pure fun _ hs => hs

end Parse

/-! ## Looking ahead and reading -/

namespace Parser

open Lookahead Parse

variable {items : List Item} {k : Nat}

/-- A failure leaves the stream as it is. -/
theorem fail_leads {σ α : Type} {P E : σ → Prop} {Q : α → σ → Prop} {e : ParseError}
    (h : ∀ s, P s → E s) : Leads P (fail e) Q E :=
  fun p hp => h p.tokens hp

/-- Giving up leaves nothing. -/
theorem giveUp_leads {σ α : Type} {P E : σ → Prop} {Q : α → σ → Prop} : Leads P giveUp Q E :=
  fun _ _ => trivial

/-- Looking ahead shows a token of the buffer, which then holds that many tokens more. -/
theorem peekNth_leads (n : Nat) :
    Leads (Ready items k) (peekNth n)
      (fun t s => s.Ready items (max k (n + 1)) ∧ nthOrLast s.buffer n = some t) (Notes items) := by
  intro p hp
  have hpeek := hp.peekNth n
  unfold peekNth
  generalize TokenStream.peekNth p.tokens n = r at hpeek
  obtain ⟨_ | t, s⟩ := r <;> exact hpeek

/-- Looking for a kind of token keeps what can be read. -/
theorem isAt_leads (n : Nat) (kind : TokenKind) :
    Leads (Ready items k) (isAt n kind) (fun _ => Ready items k) (Notes items) :=
  (peekNth_leads n).bind fun _ => .pure fun _ h => h.1.mono (Nat.le_max_left _ _)

/-- Looking at the kind of the next token brings it into the buffer. -/
theorem nextIs_leads (kind : TokenKind) :
    Leads (Ready items k) (nextIs kind)
      (fun b s => s.Ready items (max k 1) ∧ (b = true → ∀ t ∈ s.buffer.head?, t.kind = kind))
      (Notes items) := by
  refine (peekNth_leads 0).bind fun t => .pure fun s h => ⟨h.1, fun hb u hu => ?_⟩
  obtain ⟨us, hus⟩ := List.head?_eq_some_iff.1 hu
  obtain rfl : u = t := by simpa [nthOrLast, hus] using h.2
  exact of_decide_eq_true hb

/-- The token that is read is the one at the front of the buffer. -/
theorem advance_head_leads (P : Token → Prop) :
    Leads (fun s => s.Ready items (k + 1) ∧ ∀ t ∈ s.buffer.head?, P t) advance
      (fun t s => P t ∧ s.Behind items k t) (Notes items) := by
  rintro p ⟨hready, hhead⟩
  obtain ⟨t, s, hnext, ht, hbehind⟩ := hready.next
  simp only [advance, hnext]
  exact ⟨hhead t ht, hbehind⟩

/-- A token is read from the buffer. -/
theorem advance_leads :
    Leads (Ready items (k + 1)) advance (fun t s => s.Behind items k t) (Notes items) :=
  (advance_head_leads fun _ => True).conseq (fun _ h => ⟨h, fun _ _ => trivial⟩) fun _ _ h => h.2

/-- A token of a kind is read from the buffer. -/
theorem expect_leads (kind : TokenKind) (cause : Misfit) :
    Leads (Ready items (k + 1)) (expect kind cause)
      (fun t s => t.kind = kind ∧ s.Behind items k t) (Notes items) := by
  refine advance_leads.bind fun t => ?_
  split
  next hk => exact .pure fun s h => ⟨hk, h⟩
  next => exact fail_leads fun s h => h.notes

/-! ## Terminals -/

/-- Reading a number takes one token. -/
theorem number_leads :
    Leads (Ready items (k + 1)) number (fun _ => Ready items k) (Notes items) := by
  have hlast : Leads (Ready items (k + 1)) lastPos (fun _ => Ready items (k + 1)) (Notes items) :=
    fun _ hp => hp
  refine hlast.bind fun position => advance_leads.bind fun t => ?_
  by_cases hk : t.kind = .number
  · simp only [hk, ↓reduceIte]
    cases Numeral.int32? t.lexeme with
    | some value => exact .pure fun s h => h.ready (Token.not_endsTerminal (Or.inl hk))
    | none => exact fail_leads fun s h => h.notes
  · simp only [hk, ↓reduceIte]
    exact fail_leads fun s h => h.notes

/-- Reading a number of dice takes one token. -/
theorem times_leads :
    Leads (Ready items (k + 1)) times (fun _ => Ready items k) (Notes items) := by
  refine number_leads.bind fun r => ?_
  simp only
  split
  · exact .pure fun s h => h
  · exact fail_leads fun s h => h.traced.notes

/-- Reading a modifier takes one token. -/
theorem modifier_leads (faces : Int32) :
    Leads (fun s => s.Ready items (k + 1) ∧ ∀ t ∈ s.buffer.head?, t.kind = .modifier)
      (modifier faces) (fun _ => Ready items k) (Notes items) := by
  refine (advance_head_leads fun t => t.kind = .modifier).bind fun t => ?_
  have hready (s : Lookahead) (h : t.kind = .modifier ∧ s.Behind items k t) : s.Ready items k :=
    h.2.ready (Token.not_endsTerminal (Or.inr (Or.inr h.1)))
  cases t.lexeme.toList.head?.bind Modifier.ofChar? with
  | none => exact fail_leads fun s h => h.2.notes
  | some m =>
    cases m with
    | explode =>
      simp only
      split
      · exact fail_leads fun s h => h.2.notes
      · exact .pure hready
    | _ => exact .pure hready

/-- A token that may be missing takes one token at most. -/
theorem optional_leads {β : Type} {kind : TokenKind} {x : Parse Lookahead Token}
    {f : Option Token → Parse Lookahead β} {Q : β → Lookahead → Prop}
    (hx : Leads (fun s => s.Ready items (k + 1) ∧ ∀ t ∈ s.buffer.head?, t.kind = kind) x
      (fun _ => Ready items k) (Notes items))
    (hf : ∀ o, Leads (Ready items k) (f o) Q (Notes items)) :
    Leads (Ready items (k + 1))
      (nextIs kind >>= fun is => if is = true then some <$> x >>= f else pure none >>= f)
      Q (Notes items) := by
  refine (nextIs_leads kind).bind fun is => ?_
  cases is with
  | true =>
    refine Leads.bind (Leads.map (hx.weaken fun s h => ?_)) hf
    exact ⟨h.1.mono (Nat.le_max_left _ _), h.2 rfl⟩
  | false =>
    refine Leads.bind (.pure fun s h => ?_) hf
    exact h.1.mono (Nat.le_trans (Nat.le_succ k) (Nat.le_max_left _ _))

/-- Reading dice takes four tokens at most. -/
theorem dice_leads :
    Leads (Ready items (k + 4)) dice (fun _ => Ready items k) (Notes items) := by
  refine optional_leads (times_leads.weaken fun s h => h.1) fun count => ?_
  refine (expect_leads .dSymbol .notDSymbol).bind fun dSymbol => ?_
  refine Leads.weaken (P := Ready items (k + 2)) ?_ fun s h =>
    h.2.ready (Token.not_endsTerminal (Or.inr (Or.inl h.1)))
  refine number_leads.bind fun r => ?_
  exact optional_leads (modifier_leads r.2) fun mode => .pure fun s h => h

/-- Reading a terminal takes four tokens at most. -/
theorem terminal_leads :
    Leads (Ready items (k + 4)) terminal (fun _ => Ready items k) (Notes items) := by
  have hread (diceAhead : Bool) : Leads (Ready items (k + 4))
      (if diceAhead = true then dice
        else number >>= fun r => pure (Node.number r.1 r.2) : Parse Lookahead Node)
      (fun _ => Ready items k) (Notes items) := by
    split
    · exact dice_leads
    · exact number_leads.bind fun r => .pure fun s h => h.mono (by omega)
  refine (isAt_leads 0 .dSymbol).bind fun is => ?_
  split
  · exact Leads.bind (.pure fun s h => h) hread
  · exact (isAt_leads 1 .dSymbol).bind hread

/-! ## Expressions and programs -/

/-- Looking for an operator looks at all places, or at a token that ends a terminal.

**Proof sketch.** Induction on the number of places. A token that stops the search is in the buffer, and it
ends a terminal. -/
theorem operatorWithin_leads (n count : Nat) :
    Leads (Ready items k) (operatorWithin n (count + 1)) (fun _ => Ready items (n + count + 1))
      (Notes items) := by
  induction count generalizing n k with
  | zero =>
    refine (peekNth_leads n).bind fun t => ?_
    have hready (b : Bool) : Leads
        (fun s => s.Ready items (max k (n + 1)) ∧ nthOrLast s.buffer n = some t) (pure b)
        (fun _ => Ready items (n + 1)) (Notes items) :=
      .pure fun s h => h.1.mono (Nat.le_max_right _ _)
    cases t.kind <;> exact hready _
  | succ count ih =>
    refine (peekNth_leads n).bind fun t => ?_
    have hends (ht : t.EndsTerminal) (b : Bool) : Leads
        (fun s => s.Ready items (max k (n + 1)) ∧ nthOrLast s.buffer n = some t) (pure b)
        (fun _ => Ready items (n + (count + 1) + 1)) (Notes items) :=
      .pure fun s h => ⟨h.1.traced, Or.inr ⟨t, mem_of_nthOrLast h.2, ht⟩⟩
    have hnext : Leads (fun s => s.Ready items (max k (n + 1)) ∧ nthOrLast s.buffer n = some t)
        (operatorWithin (n + 1) (count + 1)) (fun _ => Ready items (n + (count + 1) + 1))
        (Notes items) :=
      (ih (n + 1)).conseq (fun s h => h.1) fun b s h => h.mono (by omega)
    cases hk : t.kind
    case operator => exact hends (Or.inl hk) true
    case separator => exact hends (Or.inr (Or.inl hk)) false
    case eof => exact hends (Or.inr (Or.inr hk)) false
    all_goals exact hnext

/-- Reading an expression reads nothing past the buffer. -/
theorem expression_leads (limit : Nat) :
    Leads (Ready items k) (expression limit) (fun _ => Ready items 0) (Notes items) := by
  induction limit generalizing k with
  | zero => exact giveUp_leads
  | succ limit ih =>
    refine (operatorWithin_leads 1 3).bind fun b => ?_
    split
    · -- five tokens are in the buffer, and the terminal reads four of them at most
      refine terminal_leads.bind fun left => ?_
      refine (expect_leads .operator .notOperator).bind fun operator => ?_
      refine Leads.weaken (P := Ready items 0) ?_ fun s h => h.2.ready_zero (by simp [h.1])
      exact ih.bind fun right => .pure fun s h => h
    · exact terminal_leads.conseq (fun s h => h) fun _ s h => h.mono (Nat.zero_le 1)

/-- Reading further expressions ends with a look at the next token. -/
theorem furtherExpressions_leads (limit n : Nat) :
    Leads (Ready items k) (furtherExpressions limit n) (fun _ => Ready items 1) (Notes items) := by
  induction n generalizing k with
  | zero => exact giveUp_leads
  | succ n ih =>
    refine (nextIs_leads .separator).bind fun b => ?_
    cases b with
    | false => exact .pure fun s h => h.1.mono (Nat.le_max_right _ _)
    | true =>
      -- the separator is no end, so behind it the buffer may be empty
      refine Leads.weaken ((advance_head_leads fun t => t.kind = .separator).bind fun separator => ?_)
        fun s h => ⟨h.1.mono (Nat.le_max_right _ _), h.2 rfl⟩
      refine Leads.weaken (P := Ready items 0) ?_ fun s h => h.2.ready_zero (by simp [h.1])
      refine (expression_leads limit).bind fun item => (peekNth_leads 0).bind fun t => ?_
      split
      · exact fail_leads fun s h => h.1.traced.notes
      · exact (ih.weaken fun s h => h.1).bind fun rest => .pure fun s h => h

/-- Reading expressions ends with a look at the next token. -/
theorem expressions_leads (limit : Nat) :
    Leads (Ready items k) (expressions limit) (fun _ => Ready items 1) (Notes items) := by
  refine (nextIs_leads .eof).bind fun b => ?_
  split
  · exact .pure fun s h => h.1.mono (Nat.le_max_right _ _)
  · refine ((expression_leads limit).weaken fun s h => h.1).bind fun item => ?_
    exact (furtherExpressions_leads limit limit).bind fun rest => .pure fun s h => h

/-- Reading the start of a text is all that is done past the buffer. -/
theorem start_leads (text : List Char) (cause : Misfit) :
    Leads (fun s => s = Lookahead.ofText text) (expect .sof cause)
      (fun _ => Ready (Lexer.ofText text).items.tail 0) (Notes (Lexer.ofText text).items.tail) := by
  rintro ⟨s, last⟩ rfl
  have hnext : TokenStream.next (Lookahead.ofText text) =
      (.ok (Lexer.ofText text).startToken.1, ⟨(Lexer.ofText text).startToken.2, [], #[]⟩) := rfl
  have hadvance : advance (⟨Lookahead.ofText text, last⟩ : Parser Lookahead) =
      some (.ok (Lexer.ofText text).startToken.1,
        ⟨⟨(Lexer.ofText text).startToken.2, [], #[]⟩, some (Lexer.ofText text).startToken.1⟩) := by
    simp only [advance, hnext]
  have hitems := Lexer.items_of_token (l := Lexer.ofText text) rfl (t := (Lexer.ofText text).startToken.1)
    (by simp [Lexer.startToken, Token.sofWith])
  rw [expect, bind_apply, hadvance]
  refine ⟨.inside List.suffix_rfl ?_ (by simp), Or.inl (Nat.zero_le _)⟩
  rw [hitems]
  rfl

/-- When a program has been read, all items behind the start of the text have been looked at. -/
theorem program_leads (text : List Char) (limit : Nat) :
    Leads (fun s => s = Lookahead.ofText text) (program limit)
      (fun _ s => s.buffered.toList.map .ok = (Lexer.ofText text).items.tail)
      (Notes (Lexer.ofText text).items.tail) := by
  refine (start_leads text .notSof).bind fun start => (expressions_leads limit).bind fun rest => ?_
  exact (expect_leads .eof .notEof).bind fun stop => .pure fun s h => h.2.all h.1

/-- **The parser looks at every token first.** When a text has been parsed, the tokens that were looked at
are the first ones behind the start of the text, and all of them if parsing has succeeded.

**Proof sketch.** Parsing a text does not give up, so it ends as reading a program does. -/
theorem looked_onText (text : List Char) :
    match (onText text).parse with
    | (.ok _, p) => p.tokens.buffered.toList.map .ok = (Lexer.ofText text).items.tail
    | (.error _, p) => p.tokens.buffered.toList.map .ok <+: (Lexer.ofText text).items.tail := by
  obtain ⟨⟨result, p⟩, hprogram⟩ := Option.ne_none_iff_exists'.1
    (program_ne_none_of_alike Lookahead.simulation (onText_alike text) (size_ofText_le text))
  have hparse : (onText text).parse = (result, p) := by rw [parse, hprogram, Option.getD_some]
  have hleads := program_leads text (onText text).limit (onText text) rfl
  rw [hparse]
  rw [hprogram] at hleads
  cases result <;> exact hleads

end Parser

end DiceNotation
