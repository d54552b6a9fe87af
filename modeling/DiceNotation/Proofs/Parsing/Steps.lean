import DiceNotation.Parser
import DiceNotation.Proofs.Parsing.Grammar

set_option autoImplicit false

/-!
# When a step of parsing succeeds

For each step of the parser one lemma that says, over a fixed stream, when it succeeds, what it
yields and what it has read. A step that looks ahead leaves a fixed stream as it is, so all that a
successful step changes is how many tokens have been read, and which one came last.

## Main definitions

* `Parser.behind` — a parser behind a sequence of tokens.
* `Parser.Reads` — between two states of a parser lies a sequence of tokens.

## Main results

* `Parse.bind_eq_ok` — two steps succeed if both succeed one after the other.
* `Parser.number_eq_ok`, `Parser.times_eq_ok`, `Parser.modifier_eq_ok` — the tokens of terminals.
* `Parser.dice_eq_ok`, `Parser.terminal_sound`, `Parser.terminal_complete` — terminals.
-/

namespace DiceNotation

/-! ## Steps one after the other -/

namespace Parse

variable {σ α β : Type} {p q : Parser σ}

/-- Two steps succeed if both succeed one after the other. -/
theorem bind_eq_ok {x : Parse σ α} {f : α → Parse σ β} {b : β} :
    (x >>= f) p = some (.ok b, q) ↔ ∃ a r, x p = some (.ok a, r) ∧ f a r = some (.ok b, q) := by
  rw [bind_apply]
  constructor
  · intro h
    split at h
    next a r hx => exact ⟨a, r, hx, h⟩
    next => simp at h
    next => simp at h
  · rintro ⟨a, r, hx, hf⟩
    simp only [hx, hf]

/-- A step that only yields a value succeeds with it. -/
theorem pure_eq_ok {a b : α} : (pure a : Parse σ α) p = some (.ok b, q) ↔ a = b ∧ p = q := by
  simp [pure_apply]

/-- A step whose value is changed succeeds as the step does. -/
theorem map_eq_ok {x : Parse σ α} {f : α → β} {b : β} :
    (f <$> x) p = some (.ok b, q) ↔ ∃ a, x p = some (.ok a, q) ∧ f a = b := by
  rw [← bind_pure_comp, bind_eq_ok]
  constructor
  · rintro ⟨a, r, hx, hf⟩
    obtain ⟨rfl, rfl⟩ := pure_eq_ok.1 hf
    exact ⟨a, hx, rfl⟩
  · rintro ⟨a, hx, rfl⟩
    exact ⟨a, q, hx, rfl⟩

end Parse

namespace Parser

/-- A step that fails does not succeed. -/
@[simp] theorem fail_ne_ok {σ α : Type} {e : ParseError} {a : α} {p q : Parser σ} :
    ¬ (fail e : Parse σ α) p = some (.ok a, q) := by
  simp [fail]

/-- A token that does not fit is no success. -/
@[simp] theorem misfit_ne_ok {σ α : Type} {t : Token} {cause : Misfit} {a : α} {p q : Parser σ} :
    ¬ (misfit t cause : Parse σ α) p = some (.ok a, q) :=
  fail_ne_ok

/-! ## Reading and looking ahead -/

variable {p q : Parser FixedStream}

/-- The parser behind the next tokens, which are `ts`. -/
def behind (p : Parser FixedStream) (ts : List Token) : Parser FixedStream :=
  ⟨p.tokens.behind ts.length, ts.getLast?.or p.last⟩

@[simp] theorem behind_tokens (p : Parser FixedStream) (ts : List Token) :
    (p.behind ts).tokens = p.tokens.behind ts.length :=
  rfl

@[simp] theorem behind_nil (p : Parser FixedStream) : p.behind [] = p :=
  rfl

/-- Going on twice is going on once. -/
@[simp] theorem behind_behind (p : Parser FixedStream) (ts us : List Token) :
    (p.behind ts).behind us = p.behind (ts ++ us) := by
  simp only [behind, FixedStream.behind_behind, List.length_append, List.getLast?_append,
    Option.or_assoc]

/-- From `p` to `q` the parser reads the tokens `ts`. -/
def Reads (p : Parser FixedStream) (ts : List Token) (q : Parser FixedStream) : Prop :=
  p.tokens.Starts ts ∧ q = p.behind ts

/-- Reading no tokens changes nothing. -/
theorem Reads.refl (p : Parser FixedStream) : p.Reads [] p :=
  ⟨p.tokens.starts_nil, rfl⟩

/-- Two sequences are read one after the other. -/
theorem reads_append {ts us : List Token} {r : Parser FixedStream} :
    p.Reads (ts ++ us) r ↔ ∃ q, p.Reads ts q ∧ q.Reads us r := by
  constructor
  · rintro ⟨hstarts, rfl⟩
    obtain ⟨hts, hus⟩ := FixedStream.starts_append.1 hstarts
    exact ⟨p.behind ts, ⟨hts, rfl⟩, hus, (behind_behind p ts us).symm⟩
  · rintro ⟨q, ⟨hts, rfl⟩, hus, rfl⟩
    exact ⟨FixedStream.starts_append.2 ⟨hts, hus⟩, behind_behind p ts us⟩

/-- A token is read, and then those behind it. -/
theorem reads_cons {t : Token} {ts : List Token} {r : Parser FixedStream} :
    p.Reads (t :: ts) r ↔ ∃ q, p.Reads [t] q ∧ q.Reads ts r := by
  rw [← List.singleton_append, reads_append]

/-- Reading goes on where it stopped. -/
theorem Reads.append {ts us : List Token} {r : Parser FixedStream} (h : p.Reads ts q)
    (h' : q.Reads us r) : p.Reads (ts ++ us) r :=
  reads_append.2 ⟨q, h, h'⟩

/-- The tokens that are read lie ahead. -/
theorem Reads.ahead_of_getElem? {ts : List Token} {i : Nat} {t : Token} (h : p.Reads ts q)
    (ht : ts[i]? = some t) : p.tokens.ahead i = .ok t :=
  h.1 i t ht

/-- What lies ahead afterwards lies further ahead before. -/
theorem Reads.ahead_add {ts : List Token} (h : p.Reads ts q) (i : Nat) :
    p.tokens.ahead (ts.length + i) = q.tokens.ahead i := by
  rw [h.2, behind_tokens, FixedStream.ahead_behind]

/-- Looking ahead succeeds at a token, and changes nothing. -/
theorem peekNth_eq_ok {n : Nat} {t : Token} :
    peekNth n p = some (.ok t, q) ↔ p.tokens.ahead n = .ok t ∧ q = p := by
  have hpeek : peekNth n p = some ((p.tokens.ahead n).mapError .unknownToken, p) := rfl
  rw [hpeek]
  cases p.tokens.ahead n with
  | ok u => simp [Except.mapError, eq_comm]
  | error e => simp [Except.mapError]

/-- Looking for a kind of token ahead succeeds at a token, and tells whether it is of that kind. -/
theorem isAt_eq_ok {n : Nat} {kind : TokenKind} {b : Bool} :
    isAt n kind p = some (.ok b, q) ↔
      ∃ t, p.tokens.ahead n = .ok t ∧ b = decide (t.kind = kind) ∧ q = p := by
  simp only [isAt, Parse.bind_eq_ok, peekNth_eq_ok, Parse.pure_eq_ok]
  constructor
  · rintro ⟨t, r, ⟨ht, rfl⟩, rfl, rfl⟩
    exact ⟨t, ht, rfl, rfl⟩
  · rintro ⟨t, ht, rfl, rfl⟩
    exact ⟨t, q, ⟨ht, rfl⟩, rfl, rfl⟩

/-- Reading succeeds at a token. -/
theorem advance_eq_ok {t : Token} :
    advance p = some (.ok t, q) ↔ p.Reads [t] q := by
  unfold advance Reads
  rw [FixedStream.starts_singleton]
  cases h : p.tokens.ahead 0 with
  | ok u =>
    rw [FixedStream.next_of_ok h]
    constructor
    · intro hu
      obtain ⟨rfl, rfl⟩ : u = t ∧ _ = q := by simpa using hu
      exact ⟨rfl, rfl⟩
    · rintro ⟨hu, rfl⟩
      cases hu
      rfl
  | error e =>
    rw [FixedStream.next_of_error h]
    simp

/-- Reading a token of a kind succeeds at a token of that kind. -/
theorem expect_eq_ok {kind : TokenKind} {cause : Misfit} {t : Token} :
    expect kind cause p = some (.ok t, q) ↔
      t.kind = kind ∧ p.Reads [t] q := by
  simp only [expect, Parse.bind_eq_ok, advance_eq_ok]
  constructor
  · rintro ⟨u, r, hu, h⟩
    split at h
    next hk =>
      obtain ⟨rfl, rfl⟩ := Parse.pure_eq_ok.1 h
      exact ⟨hk, hu⟩
    next => exact absurd h misfit_ne_ok
  · rintro ⟨hk, ht⟩
    exact ⟨t, q, ht, by rw [if_pos hk]; rfl⟩

/-! ## The tokens of terminals -/

/-- Reading a number succeeds at a number. -/
theorem number_eq_ok {t : Token} {value : Int32} :
    number p = some (.ok (t, value), q) ↔
      t.IsNumber value ∧ p.Reads [t] q := by
  simp only [number, Parse.bind_eq_ok, advance_eq_ok]
  constructor
  · rintro ⟨position, p', hpos, u, r, hu, h⟩
    obtain rfl : p = p' := by
      have := hpos
      simp only [lastPos, Option.some.injEq, Prod.mk.injEq] at this
      exact this.2
    cases hv : if u.kind = .number then Numeral.int32? u.lexeme else none with
    | none =>
      rw [hv] at h
      exact absurd h fail_ne_ok
    | some v =>
      rw [hv] at h
      obtain ⟨hpair, rfl⟩ := Parse.pure_eq_ok.1 h
      obtain ⟨rfl, rfl⟩ := Prod.mk.inj hpair
      split_ifs at hv with hk
      exact ⟨⟨hk, hv⟩, hu⟩
  · rintro ⟨⟨hk, hv⟩, ht⟩
    refine ⟨_, p, rfl, t, q, ht, ?_⟩
    simp only [hk, hv, ↓reduceIte]
    rfl

/-- Reading a number of dice succeeds at such a number. -/
theorem times_eq_ok {t : Token} :
    times p = some (.ok t, q) ↔ t.IsCount ∧ p.Reads [t] q := by
  simp only [times, Parse.bind_eq_ok]
  constructor
  · rintro ⟨⟨u, v⟩, r, hnumber, h⟩
    obtain ⟨hu, hread⟩ := number_eq_ok.1 hnumber
    simp only at h
    split at h
    next hv =>
      obtain ⟨rfl, rfl⟩ := Parse.pure_eq_ok.1 h
      exact ⟨⟨v, hu, hv⟩, hread⟩
    next => exact absurd h misfit_ne_ok
  · rintro ⟨⟨v, hu, hv⟩, hread⟩
    refine ⟨(t, v), q, number_eq_ok.2 ⟨hu, hread⟩, ?_⟩
    simp only [if_pos hv]
    rfl

/-- Reading a modifier, where one is ahead, succeeds at one that suits the faces. -/
theorem modifier_eq_ok {faces : Int32} {u t : Token} (hu : p.tokens.ahead 0 = .ok u)
    (hk : u.kind = .modifier) :
    modifier faces p = some (.ok t, q) ↔ t.IsModifier faces ∧ p.Reads [t] q := by
  simp only [modifier, Parse.bind_eq_ok, advance_eq_ok]
  constructor
  · rintro ⟨t', r, hread, h⟩
    obtain rfl : u = t' := Except.ok.inj (hu.symm.trans (hread.ahead_of_getElem? rfl))
    cases hm : u.lexeme.toList.head?.bind Modifier.ofChar? with
    | none =>
      rw [hm] at h
      exact absurd h misfit_ne_ok
    | some m =>
      rw [hm] at h
      have hsuits : (m = .explode → ¬ (-1 ≤ faces ∧ faces ≤ 1)) ∧
          (pure u : Parse FixedStream Token) r = some (.ok t, q) := by
        cases m with
        | explode =>
          simp only at h
          split_ifs at h with hfaces
          · exact absurd h misfit_ne_ok
          · exact ⟨fun _ => hfaces, h⟩
        | _ => exact ⟨by simp, h⟩
      obtain ⟨rfl, rfl⟩ := Parse.pure_eq_ok.1 hsuits.2
      exact ⟨⟨hk, m, hm, hsuits.1⟩, hread⟩
  · rintro ⟨⟨-, m, hm, hfaces⟩, hread⟩
    refine ⟨t, q, hread, ?_⟩
    rw [hm]
    cases m with
    | explode =>
      simp only [if_neg (hfaces rfl)]
      rfl
    | _ => rfl

/-! ## Terminals -/

/-- A token that may be missing is read exactly where one of its kind is ahead. Here `x` reads it,
and succeeds at the tokens for which `P` holds. -/
theorem optional_eq_ok {β : Type} {kind : TokenKind} {x : Parse FixedStream Token}
    {k : Option Token → Parse FixedStream β} {P : Token → Prop} {b : β}
    (hx : ∀ t u r, p.tokens.ahead 0 = .ok t → t.kind = kind →
      (x p = some (.ok u, r) ↔ P u ∧ p.Reads [u] r)) :
    (nextIs kind >>= fun is => if is = true then some <$> x >>= k else pure none >>= k) p =
        some (.ok b, q) ↔
      ∃ t o r, p.tokens.ahead 0 = .ok t ∧ (o.isSome ↔ t.kind = kind) ∧ (∀ u ∈ o, P u) ∧
        p.Reads o.toList r ∧ k o r = some (.ok b, q) := by
  simp only [nextIs, Parse.bind_eq_ok, isAt_eq_ok]
  constructor
  · rintro ⟨is, r, ⟨t, ht, rfl, rfl⟩, h⟩
    by_cases hk : t.kind = kind
    · simp only [hk, decide_true, ↓reduceIte, Parse.bind_eq_ok, Parse.map_eq_ok] at h
      obtain ⟨o, r', ⟨u, hu, rfl⟩, h⟩ := h
      obtain ⟨hP, hread⟩ := (hx t u r' ht hk).1 hu
      exact ⟨t, some u, r', ht, by simp [hk], by simpa using hP, hread, h⟩
    · simp only [hk, decide_false, Bool.false_eq_true, ↓reduceIte, pure_bind] at h
      exact ⟨t, none, _, ht, by simp [hk], by simp, Reads.refl _, h⟩
  · rintro ⟨t, o, r, ht, hk, hP, hread, h⟩
    cases o with
    | some u =>
      have hk : t.kind = kind := by simpa using hk
      refine ⟨true, p, ⟨t, ht, by simp [hk], rfl⟩, ?_⟩
      simp only [↓reduceIte, Parse.bind_eq_ok, Parse.map_eq_ok]
      exact ⟨some u, r, ⟨u, (hx t u r ht hk).2 ⟨hP u rfl, hread⟩, rfl⟩, h⟩
    | none =>
      have hk : t.kind ≠ kind := by simpa using hk
      obtain rfl : r = p := hread.2
      refine ⟨false, r, ⟨t, ht, by simp [hk], rfl⟩, ?_⟩
      simpa only [Bool.false_eq_true, ↓reduceIte, pure_bind] using h

/-- Reading dice succeeds at the tokens of dice, and where these have no modifier, at a token behind
them that is none. -/
theorem dice_eq_ok {n : Node} :
    dice p = some (.ok n, q) ↔
      ∃ times dSymbol faces modifier value, n = .dice times dSymbol faces modifier ∧
        (∀ t ∈ times, t.IsCount) ∧ dSymbol.kind = .dSymbol ∧ faces.IsNumber value ∧
        (∀ t ∈ modifier, t.IsModifier value) ∧ p.Reads n.tokens q ∧
        (modifier = none → ∃ t, q.tokens.ahead 0 = .ok t ∧ t.kind ≠ .modifier) := by
  unfold dice
  rw [optional_eq_ok (P := Token.IsCount) fun _ _ _ _ _ => times_eq_ok]
  constructor
  · rintro ⟨t₀, times, p₁, -, -, htimes, hread, h⟩
    obtain ⟨dSymbol, p₂, hdSymbol, h⟩ := Parse.bind_eq_ok.1 h
    obtain ⟨hd, hreadd⟩ := expect_eq_ok.1 hdSymbol
    obtain ⟨⟨faces, value⟩, p₃, hnumber, h⟩ := Parse.bind_eq_ok.1 h
    obtain ⟨hfaces, hreadf⟩ := number_eq_ok.1 hnumber
    obtain ⟨t₁, modifier, p₄, ht₁, hsome, hmodifier, hreadm, h⟩ :=
      (optional_eq_ok (P := fun t => t.IsModifier value) fun _ _ _ => modifier_eq_ok).1 h
    obtain ⟨rfl, rfl⟩ := Parse.pure_eq_ok.1 h
    refine ⟨times, dSymbol, faces, modifier, value, rfl, htimes, hd, hfaces, hmodifier,
      (hread.append (hreadd.append hreadf)).append hreadm, fun hnone => ⟨t₁, ?_, ?_⟩⟩
    · subst hnone
      rw [hreadm.2]
      exact ht₁
    · simpa [hnone] using hsome
  · rintro ⟨times, dSymbol, faces, modifier, value, rfl, htimes, hd, hfaces, hmodifier, hread, hnone⟩
    obtain ⟨p₃, hread, hreadm⟩ := reads_append.1 hread
    obtain ⟨p₁, hread, hreadf⟩ := reads_append.1 hread
    obtain ⟨p₂, hreadd, hreadf⟩ := reads_cons.1 hreadf
    have hk (t : Token) (ht : t ∈ times) : t.kind = .number := by
      obtain ⟨v, hv, -⟩ := htimes t ht
      exact hv.kind
    have hfirst : ∃ t, p.tokens.ahead 0 = .ok t ∧ (times.isSome ↔ t.kind = .number) := by
      cases times with
      | some t => exact ⟨t, hread.ahead_of_getElem? rfl, by simp [hk t rfl]⟩
      | none =>
        obtain rfl : p₁ = p := hread.2
        exact ⟨dSymbol, hreadd.ahead_of_getElem? rfl, by simp [hd]⟩
    have hlast : ∃ t, p₃.tokens.ahead 0 = .ok t ∧ (modifier.isSome ↔ t.kind = .modifier) := by
      cases modifier with
      | some t => exact ⟨t, hreadm.ahead_of_getElem? rfl, by simp [(hmodifier t rfl).kind]⟩
      | none =>
        obtain rfl : q = p₃ := hreadm.2
        obtain ⟨t, ht, hne⟩ := hnone rfl
        exact ⟨t, ht, by simp [hne]⟩
    obtain ⟨t₀, ht₀, hsome₀⟩ := hfirst
    obtain ⟨t₁, ht₁, hsome₁⟩ := hlast
    refine ⟨t₀, times, p₁, ht₀, hsome₀, htimes, hread, ?_⟩
    refine Parse.bind_eq_ok.2 ⟨dSymbol, p₂, expect_eq_ok.2 ⟨hd, hreadd⟩, ?_⟩
    refine Parse.bind_eq_ok.2 ⟨(faces, value), p₃, number_eq_ok.2 ⟨hfaces, hreadf⟩, ?_⟩
    exact (optional_eq_ok (P := fun t => t.IsModifier value) fun _ _ _ => modifier_eq_ok).2
      ⟨t₁, modifier, q, ht₁, hsome₁, hmodifier, hreadm, rfl⟩

/-- Reading a terminal is reading dice if one of the next two tokens is the letter, and else reading
a number. -/
theorem terminal_eq_ok {n : Node} :
    terminal p = some (.ok n, q) ↔
      ∃ t, p.tokens.ahead 0 = .ok t ∧
        ((t.kind = .dSymbol ∧ dice p = some (.ok n, q)) ∨
          (t.kind ≠ .dSymbol ∧ ∃ u, p.tokens.ahead 1 = .ok u ∧
            ((u.kind = .dSymbol ∧ dice p = some (.ok n, q)) ∨
              (u.kind ≠ .dSymbol ∧
                ∃ value, n = .number t value ∧ t.IsNumber value ∧ p.Reads [t] q)))) := by
  unfold terminal
  rw [Parse.bind_eq_ok]
  constructor
  · rintro ⟨is, r, hat, h⟩
    obtain ⟨t, ht, rfl, rfl⟩ := isAt_eq_ok.1 hat
    refine ⟨t, ht, ?_⟩
    by_cases hk : t.kind = .dSymbol
    · simp only [hk, decide_true, ↓reduceIte, pure_bind] at h
      exact Or.inl ⟨hk, h⟩
    · simp only [hk, decide_false, Bool.false_eq_true, ↓reduceIte] at h
      obtain ⟨is, r, hat', hrest⟩ := Parse.bind_eq_ok.1 h
      obtain ⟨u, hu, rfl, rfl⟩ := isAt_eq_ok.1 hat'
      refine Or.inr ⟨hk, u, hu, ?_⟩
      by_cases hk' : u.kind = .dSymbol
      · simp only [hk', decide_true, ↓reduceIte] at hrest
        exact Or.inl ⟨hk', hrest⟩
      · simp only [hk', decide_false, Bool.false_eq_true, ↓reduceIte] at hrest
        obtain ⟨⟨t', value⟩, r', hnumber, hpure⟩ := Parse.bind_eq_ok.1 hrest
        obtain ⟨rfl, rfl⟩ := Parse.pure_eq_ok.1 hpure
        obtain ⟨hvalue, hread⟩ := number_eq_ok.1 hnumber
        obtain rfl : t = t' := Except.ok.inj (ht.symm.trans (hread.ahead_of_getElem? rfl))
        exact Or.inr ⟨hk', value, rfl, hvalue, hread⟩
  · rintro ⟨t, ht, ⟨hk, h⟩ | ⟨hk, u, hu, h⟩⟩
    · refine ⟨true, p, isAt_eq_ok.2 ⟨t, ht, by simp [hk], rfl⟩, ?_⟩
      simpa only [↓reduceIte, pure_bind] using h
    · refine ⟨false, p, isAt_eq_ok.2 ⟨t, ht, by simp [hk], rfl⟩, ?_⟩
      simp only [Bool.false_eq_true, ↓reduceIte, Parse.bind_eq_ok]
      rcases h with ⟨hk', h⟩ | ⟨hk', value, rfl, hvalue, hread⟩
      · refine ⟨true, p, isAt_eq_ok.2 ⟨u, hu, by simp [hk'], rfl⟩, ?_⟩
        simpa only [↓reduceIte] using h
      · refine ⟨false, p, isAt_eq_ok.2 ⟨u, hu, by simp [hk'], rfl⟩, ?_⟩
        simp only [Bool.false_eq_true, ↓reduceIte, Parse.bind_eq_ok]
        exact ⟨(t, value), q, number_eq_ok.2 ⟨hvalue, hread⟩, rfl⟩

/-- A terminal that has been read is a terminal. -/
theorem terminal_sound {n : Node} (h : terminal p = some (.ok n, q)) :
    n.IsTerminal ∧ p.Reads n.tokens q := by
  have hdice (h : dice p = some (.ok n, q)) : n.IsTerminal ∧ p.Reads n.tokens q := by
    obtain ⟨times, dSymbol, faces, modifier, value, rfl, htimes, hd, hfaces, hmodifier, hread, -⟩ :=
      dice_eq_ok.1 h
    exact ⟨.dice htimes hd hfaces hmodifier, hread⟩
  obtain ⟨t, -, ⟨-, h⟩ | ⟨-, u, -, ⟨-, h⟩ | ⟨-, value, rfl, hvalue, hread⟩⟩⟩ := terminal_eq_ok.1 h
  · exact hdice h
  · exact hdice h
  · exact ⟨.number hvalue, hread⟩

/-- A terminal is read where it is ahead, if a token follows it that can stand behind a terminal. -/
theorem terminal_complete {n : Node} (hn : n.IsTerminal) (hread : p.Reads n.tokens q)
    (hq : ∃ t, q.tokens.ahead 0 = .ok t ∧ t.EndsTerminal) :
    terminal p = some (.ok n, q) := by
  obtain ⟨next, hnext, hends⟩ := hq
  cases hn with
  | @number t value hvalue =>
    have ht : p.tokens.ahead 0 = .ok t := hread.ahead_of_getElem? rfl
    have hu : p.tokens.ahead 1 = .ok next := (hread.ahead_add 0).trans hnext
    refine terminal_eq_ok.2 ⟨t, ht, Or.inr ⟨by simp [hvalue.kind], next, hu, Or.inr ⟨?_, ?_⟩⟩⟩
    · rcases hends with h | h | h <;> simp [h]
    · exact ⟨value, rfl, hvalue, hread⟩
  | @dice times modifier dSymbol faces value htimes hd hfaces hmodifier =>
    have hdice : dice p = some (.ok (.dice times dSymbol faces modifier), q) := by
      refine dice_eq_ok.2 ⟨times, dSymbol, faces, modifier, value, rfl, htimes, hd, hfaces,
        hmodifier, hread, fun _ => ⟨next, hnext, ?_⟩⟩
      rcases hends with h | h | h <;> simp [h]
    cases times with
    | none =>
      exact terminal_eq_ok.2 ⟨dSymbol, hread.ahead_of_getElem? rfl, Or.inl ⟨hd, hdice⟩⟩
    | some t =>
      obtain ⟨v, hv, -⟩ := htimes t rfl
      refine terminal_eq_ok.2 ⟨t, hread.ahead_of_getElem? rfl, Or.inr ⟨by simp [hv.kind], ?_⟩⟩
      exact ⟨dSymbol, hread.ahead_of_getElem? rfl, Or.inl ⟨hd, hdice⟩⟩

end Parser

end DiceNotation
